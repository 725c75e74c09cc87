import SchemaToGo.FileTree
import SchemaToGo.Proofs.Result
import SchemaToGo.Proofs.Text.Split
set_option autoImplicit false

/-!
# Writing to a file tree

A file that has been written is read back by the same path, absolute or not, and every other file is
what it was: `gets_of_write`.  Files are kept under the keys of their routes, and routes that paths
lead along have different keys.
-/

namespace SchemaToGo.FileTree

/-! ## Keys -/

/-- The root has no names. -/
theorem nil_proper : Route.Proper [] := fun _ h => absurd h List.not_mem_nil

theorem append_proper {route : Route} (h : route.Proper) {name : String} (hname : name ≠ "")
    (hslash : '/' ∉ name.toList) : Route.Proper (route ++ [name]) := by
  intro x hx
  rcases List.mem_append.mp hx with hx | hx
  · exact h x hx
  · rw [List.mem_singleton.mp hx]
    exact ⟨hname, hslash⟩

theorem parent_proper {route : Route} (h : route.Proper) : (parent route).Proper :=
  fun name hname => h name (List.dropLast_subset _ hname)

/-- The key of a route is cut into its names again. -/
theorem splitOn_key {route : Route} (h : route.Proper) (hne : route ≠ []) :
    (key route).toList.splitOn '/' = route.map String.toList := by
  have hslash : "/".toList = ['/'] := by decide
  unfold key
  rw [String.toList_intercalate, hslash]
  refine List.splitOn_intercalate '/' (fun t ht => ?_) fun hnil => ?_
  · obtain ⟨name, hname, rfl⟩ := List.mem_map.mp ht
    exact (h name hname).2
  · exact hne (List.map_eq_nil_iff.mp hnil)

theorem key_ne_empty {route : Route} (h : route.Proper) (hne : route ≠ []) :
    key route ≠ key [] := by
  intro heq
  have hsplit := splitOn_key h hne
  rw [heq] at hsplit
  obtain ⟨name, rest, rfl⟩ := List.exists_cons_of_ne_nil hne
  have hempty : name.toList = [] := (List.cons.inj hsplit).1.symm
  exact (h name List.mem_cons_self).1 (String.toList_eq_nil_iff.mp hempty)

/-- Different routes have different keys. -/
theorem eq_of_key {route route' : Route} (h : route.Proper) (h' : route'.Proper)
    (hkey : key route = key route') : route = route' := by
  by_cases hnil : route = []
  · by_cases hnil' : route' = []
    · rw [hnil, hnil']
    · rw [hnil] at hkey
      exact absurd hkey.symm (key_ne_empty h' hnil')
  · by_cases hnil' : route' = []
    · rw [hnil'] at hkey
      exact absurd hkey (key_ne_empty h hnil)
    · have hnames : route.map String.toList = route'.map String.toList := by
        rw [← splitOn_key h hnil, hkey, splitOn_key h' hnil']
      exact (List.map_inj_right fun _ _ => String.toList_inj.mp).mp hnames

/-! ## Routes of paths -/

/-- Where a path to be read leads. -/
def routeToRead (tree : FileTree) (path : String) : Except FileError Route := do
  (← names path).foldlM tree.step (tree.start path)

/-- A file is read where its path leads. -/
theorem read_eq_ok_iff {tree : FileTree} {path : String} {bytes : List UInt8} :
    tree.read path = .ok bytes ↔
      ∃ route, tree.routeToRead path = .ok route ∧ tree.node? route = some (.file bytes) := by
  unfold read routeToRead
  constructor
  · intro h
    obtain ⟨all, hall, h⟩ := bind_eq_ok_iff.mp h
    obtain ⟨route, hroute, h⟩ := bind_eq_ok_iff.mp h
    refine ⟨route, bind_eq_ok_iff.mpr ⟨all, hall, hroute⟩, ?_⟩
    split at h
    · cases h
    · cases h
    · next hnode =>
      cases h
      exact hnode
  · rintro ⟨route, hroute, hnode⟩
    obtain ⟨all, hall, hroute⟩ := bind_eq_ok_iff.mp hroute
    refine bind_eq_ok_iff.mpr ⟨all, hall, bind_eq_ok_iff.mpr ⟨route, hroute, ?_⟩⟩
    rw [hnode]

theorem slash_not_mem_of_names {path : String} {all : List String} (h : names path = .ok all) :
    ∀ name ∈ all, '/' ∉ name.toList := by
  unfold names at h
  split at h
  · cases h
  · split at h
    · cases h
    · split at h
      · cases h
      · cases h
        intro name hname hslash
        obtain ⟨t, ht, rfl⟩ := List.mem_map.mp hname
        rw [String.toList_ofList] at hslash
        have hplain := Text.not_of_mem_splitAll ht '/' hslash
        exact absurd hplain (by decide)

variable {tree tree' : FileTree} {route route' : Route}

/-- A step goes on from a directory only. -/
theorem step_eq_ok {name : String} (h : tree.step route name = .ok route') :
    tree.node? route = some .directory := by
  unfold step at h
  split at h
  · cases h
  · cases h
  · next hnode => exact hnode

theorem step_proper {name : String} (hroute : route.Proper) (hname : '/' ∉ name.toList)
    (h : tree.step route name = .ok route') : route'.Proper := by
  have hnode := step_eq_ok h
  unfold step at h
  rw [hnode] at h
  dsimp only at h
  split at h
  · cases h
    exact hroute
  · next hplain =>
    split at h
    · cases h
      exact parent_proper hroute
    · split at h
      · cases h
      · cases h
        exact append_proper hroute (fun hempty => hplain (.inl hempty)) hname

theorem steps_proper {all : List String} (hall : ∀ name ∈ all, '/' ∉ name.toList)
    (hroute : route.Proper) (h : all.foldlM tree.step route = .ok route') : route'.Proper := by
  induction all generalizing route with
  | nil =>
    cases h
    exact hroute
  | cons name rest ih =>
    rw [List.foldlM_cons, bind_eq_ok_iff] at h
    obtain ⟨next, hstep, hrest⟩ := h
    exact ih (fun n hn => hall n (List.mem_cons_of_mem _ hn))
      (step_proper hroute (hall name List.mem_cons_self) hstep) hrest

theorem start_proper (tree : FileTree) (path : String) : (tree.start path).Proper := by
  unfold start
  split
  · exact nil_proper
  · exact tree.proper

theorem routeToRead_proper {path : String} (h : tree.routeToRead path = .ok route) :
    route.Proper := by
  obtain ⟨all, hall, hsteps⟩ := bind_eq_ok_iff.mp h
  exact steps_proper (slash_not_mem_of_names hall) (tree.start_proper path) hsteps

/-- A step to the same directory. -/
theorem step_dot (h : tree.step route "." = .ok route') : route' = route := by
  have hnode := step_eq_ok h
  unfold step at h
  rw [hnode] at h
  cases h
  rfl

theorem ne_nil_of_names {path : String} {all : List String} (h : names path = .ok all) :
    all ≠ [] := by
  unfold names at h
  split at h
  · cases h
  · split at h
    · cases h
    · split at h
      · cases h
      · cases h
        obtain ⟨first, others, hsplit⟩ := Text.exists_splitAll (· = '/') path.toList
        rw [hsplit]
        exact List.cons_ne_nil _ _

/-- A path that can be written leads where it leads when it is read, and not to a directory. -/
theorem routeToRead_of_routeToWrite {path : String} (h : tree.routeToWrite path = .ok route) :
    tree.routeToRead path = .ok route ∧ tree.node? route ≠ some .directory := by
  obtain ⟨all, hall, h⟩ := bind_eq_ok_iff.mp h
  obtain ⟨front, name, rfl⟩ : ∃ front name, all = front ++ [name] :=
    ⟨_, _, (List.dropLast_concat_getLast (ne_nil_of_names hall)).symm⟩
  obtain ⟨around, haround, h⟩ := bind_eq_ok_iff.mp h
  obtain ⟨around', hdot, h⟩ := bind_eq_ok_iff.mp h
  cases step_dot hdot
  split at h
  · cases h
  · next hslash =>
    rw [List.getLast?_concat, Option.some.injEq] at hslash
    -- the last name is not empty, so none of the names is dropped
    have hused : ((front ++ [name]).reverse.dropWhile (· = "")).reverse = front ++ [name] := by
      simp [hslash]
    rw [hused, List.dropLast_concat] at haround
    rw [hused, List.getLastD_concat] at h
    obtain ⟨last, hlast, h⟩ := bind_eq_ok_iff.mp h
    split at h
    · cases h
    · next hnode =>
      cases h
      refine ⟨?_, hnode⟩
      refine bind_eq_ok_iff.mpr ⟨_, hall, ?_⟩
      rw [List.foldlM_append, bind_eq_ok_iff]
      exact ⟨around, haround, by rw [List.foldlM_cons, hlast]; rfl⟩

/-! ## A written file -/

section

variable {bytes : List UInt8} (hwritten : route.Proper) (hfile : tree.node? route ≠ some .directory)

include hfile in
/-- What is written stands at its route. -/
theorem node?_withFile_self : (tree.withFile route bytes).node? route = some (.file bytes) := by
  have hinside : ¬ route.isPrefixOf tree.home = true := fun haround => hfile (if_pos haround)
  unfold node? withFile
  rw [if_neg hinside]
  exact Dict.find?_insert_self _ _ _

include hwritten in
/-- Nothing else is written. -/
theorem node?_withFile_of_ne {other : Route} (hother : other.Proper) (hne : other ≠ route) :
    (tree.withFile route bytes).node? other = tree.node? other := by
  unfold node? withFile
  dsimp only
  split
  · rfl
  · exact Dict.find?_insert_of_ne _ (fun hkey => hne (eq_of_key hother hwritten hkey)) _

include hwritten hfile

/-- A file that is written over or made is no way to go either before or afterwards. -/
theorem step_withFile_iff {other : Route} (hother : other.Proper) {name : String} :
    (tree.withFile route bytes).step other name = .ok route' ↔
      tree.step other name = .ok route' := by
  by_cases heq : other = route
  · subst heq
    refine iff_of_false (fun h => ?_) (fun h => hfile (step_eq_ok h))
    have hnode := step_eq_ok h
    rw [node?_withFile_self hfile] at hnode
    cases hnode
  · unfold step
    rw [node?_withFile_of_ne hwritten hother heq]

theorem steps_withFile_iff {all : List String} (hall : ∀ name ∈ all, '/' ∉ name.toList)
    {other : Route} (hother : other.Proper) :
    all.foldlM (tree.withFile route bytes).step other = .ok route' ↔
      all.foldlM tree.step other = .ok route' := by
  induction all generalizing other with
  | nil => rfl
  | cons name rest ih =>
    have hrest := fun n hn => hall n (List.mem_cons_of_mem _ hn)
    rw [List.foldlM_cons, List.foldlM_cons, bind_eq_ok_iff, bind_eq_ok_iff]
    refine exists_congr fun next => ?_
    rw [step_withFile_iff hwritten hfile hother]
    refine and_congr_right fun hstep => ?_
    exact ih hrest (step_proper hother (hall name List.mem_cons_self) hstep)

/-- Paths lead where they led before. -/
theorem routeToRead_withFile_iff {path : String} :
    (tree.withFile route bytes).routeToRead path = .ok route' ↔
      tree.routeToRead path = .ok route' := by
  unfold routeToRead
  rw [bind_eq_ok_iff, bind_eq_ok_iff]
  refine exists_congr fun all => and_congr_right fun hall => ?_
  exact steps_withFile_iff hwritten hfile (slash_not_mem_of_names hall) (tree.start_proper path)

end

/-- The second tree has the bytes in the file at the path, and its other files are those of the
first tree. -/
structure Gets (tree : FileTree) (path : String) (bytes : List UInt8) (tree' : FileTree) :
    Prop where
  held : tree'.read path = .ok bytes
  kept : ∀ other, tree'.routeToRead other ≠ tree'.routeToRead path →
    ∀ b, tree'.read other = .ok b ↔ tree.read other = .ok b

/-- Writing changes one file. -/
theorem gets_of_write {path : String} {bytes : List UInt8} (h : tree.write path bytes = .ok tree') :
    tree.Gets path bytes tree' := by
  obtain ⟨route, hroute, hdone⟩ := bind_eq_ok_iff.mp h
  cases hdone
  obtain ⟨hread, hfile⟩ := routeToRead_of_routeToWrite hroute
  have hwritten := routeToRead_proper hread
  have hroutes : ∀ {path : String} {r : Route},
      (tree.withFile route bytes).routeToRead path = .ok r ↔ tree.routeToRead path = .ok r :=
    routeToRead_withFile_iff hwritten hfile
  refine ⟨read_eq_ok_iff.mpr ⟨route, hroutes.mpr hread, node?_withFile_self hfile⟩,
    fun other hother b => ?_⟩
  rw [read_eq_ok_iff, read_eq_ok_iff]
  refine exists_congr fun r => ?_
  rw [hroutes]
  refine and_congr_right fun hr => ?_
  -- what is read along the other path stands under another key
  have hne : r ≠ route := by
    rintro rfl
    exact hother ((hroutes.mpr hr).trans (hroutes.mpr hread).symm)
  rw [node?_withFile_of_ne hwritten (routeToRead_proper hr) hne]

end SchemaToGo.FileTree
