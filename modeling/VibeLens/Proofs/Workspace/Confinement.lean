import VibeLens.Proofs.Files.Writing

set_option autoImplicit false

/-!
The directory for the index stays inside the workspace. The directory that is accepted begins with
the names of the workspace, and as long as no circle of links was met there is no link in it, so that
making it and writing below it changes nothing outside. A circle of links is taken by its text alone;
what is left can then be a link that leads out, and nothing checks it again.
-/

namespace VibeLens.FileTree

open VibeLens.Path (IsName)

variable {t after : FileTree} {cwd top dir l : Location}

/-- Going down to a directory leads along the way to `top` and from there on stays inside it. -/
def StaysInside (t : FileTree) (top dir : Location) : Prop :=
  ∀ between, between <+: dir → ∀ there, t.Leads [] between there →
    (between <+: top ∧ there = between) ∨ top <+: there

theorem LinkFree.staysInside (free : t.LinkFree dir) (proper : ∀ name ∈ dir, IsName name)
    (inside : top <+: dir) : t.StaysInside top dir := by
  intro between isAbove there way
  have literal : t.Leads [] between between :=
    (free.of_prefix isAbove).leads fun name member => proper name (isAbove.subset member)
  obtain rfl := way.unique literal
  rcases List.prefix_or_prefix_of_prefix isAbove inside with shorter | longer
  · exact .inl ⟨shorter, rfl⟩
  · exact .inr longer

theorem StaysInside.of_prefix {above : Location} (inside : t.StaysInside top dir)
    (isAbove : above <+: dir) : t.StaysInside top above :=
  fun between isHigher => inside between (isHigher.trans isAbove)

theorem staysInside_iff_follow (cwd : Location) :
    t.StaysInside top dir ↔
      ∀ between, between <+: dir → ∀ r,
        t.follow cwd (t.linkNesting cwd) [] .top between = .reached r →
        (between <+: top ∧ r.location cwd = between) ∨ top <+: r.location cwd := by
  constructor
  · intro inside between isAbove r came
    exact inside between isAbove _ (leads_of_follow came)
  · intro inside between isAbove there way
    obtain ⟨r, came, rfl⟩ := leads_iff_follow.1
      (show t.Leads (Reached.top.location cwd) between there from way)
    exact inside between isAbove r came

theorem SameLinks.staysInside (same : SameLinks t after) (inside : t.StaysInside top dir) :
    after.StaysInside top dir :=
  fun between isAbove there way => inside between isAbove there (same.leads way)

/-- All that is new are directories. Each has the name of a level of `dir`, and stands where the names
before that one lead. -/
def MakesAlong (t after : FileTree) (dir : Location) : Prop :=
  ∀ l, after.get? l = t.get? l ∨
    (t.get? l = none ∧ after.get? l = some .dir ∧
      ∃ front name parent, front ++ [name] <+: dir ∧ t.Leads [] front parent ∧ l = parent ++ [name])

namespace MakesAlong

theorem refl (t : FileTree) (dir : Location) : MakesAlong t t dir := fun _ => .inl rfl

theorem sameLinks (makes : MakesAlong t after dir) : SameLinks t after := by
  intro l target
  rcases makes l with same | ⟨missing, isDir, -⟩
  · rw [same]
  · simp [missing, isDir]

theorem trans {middle : FileTree} (first : MakesAlong t middle dir)
    (second : MakesAlong middle after dir) : MakesAlong t after dir := by
  intro l
  rcases first l with same | ⟨missing, isDir, place⟩
  · rcases second l with same' | ⟨missing, isDir, front, name, parent, level, way, rfl⟩
    · exact .inl (same'.trans same)
    · exact .inr ⟨same ▸ missing, isDir, front, name, parent, level, first.sameLinks.leads way, rfl⟩
  · rcases second l with same | ⟨missing', -⟩
    · exact .inr ⟨missing, same.trans isDir, place⟩
    · rw [isDir] at missing'
      cases missing'

theorem of_prefix {above : Location} (makes : MakesAlong t after above) (isAbove : above <+: dir) :
    MakesAlong t after dir := by
  intro l
  apply (makes l).imp_right
  rintro ⟨missing, isDir, front, name, parent, level, place⟩
  exact ⟨missing, isDir, front, name, parent, level.trans isAbove, place⟩

theorem of_makeDir (made : t.makeDir cwd (Location.text l) = .ok after)
    (proper : ∀ name ∈ l, IsName name) (level : l <+: dir) : MakesAlong t after dir := by
  obtain ⟨place, found, missing, rfl⟩ := exists_of_makeDir made
  rcases List.eq_nil_or_concat' l with rfl | ⟨front, name, rfl⟩
  · rw [locate_text_top] at found
    cases found
    cases missing
  · rw [locate_text t cwd false (by simp) proper] at found
    have isName : IsName name := proper name (by simp)
    have nonempty : "" ∉ front := fun member => (proper "" (by simp [member])).nonempty rfl
    obtain ⟨parent, way, -, rfl⟩ := leads_parent_of_walk isName nonempty found
    intro other
    by_cases same : other = parent ++ [name]
    · subst same
      exact .inr ⟨missing, get?_put_self (by simp), front, name, parent, level, way, rfl⟩
    · exact .inl (get?_put_of_ne same)

theorem of_level (proper : ∀ name ∈ dir, IsName name) (t after : FileTree) (level : List String)
    (isAbove : level <:+ dir.reverse)
    (made : t.makeDir cwd (Path.mk .top level.reverse).toString = .ok after) :
    MakesAlong t after dir := by
  have above : level.reverse <+: dir := List.reverse_suffix.mp (by simpa using isAbove)
  exact of_makeDir made (fun name member => proper name (above.subset member)) above

theorem of_ensureDirs (proper : ∀ name ∈ dir, IsName name)
    (made : t.ensureDirs cwd .top dir.reverse = .ok after) : MakesAlong t after dir :=
  ensureDirs_induction (MakesAlong · · dir) (refl · dir) (fun _ _ _ => trans) (of_level proper) made

theorem of_dirsLeft (proper : ∀ name ∈ dir, IsName name) :
    MakesAlong t (t.dirsLeft cwd .top dir.reverse) dir :=
  dirsLeft_induction (MakesAlong · · dir) (refl · dir) (fun _ _ _ => trans) (of_level proper)

end MakesAlong

def OnlyMakes (t after : FileTree) (top : Location) : Prop :=
  ∀ l, after.get? l = t.get? l ∨
    (t.get? l = none ∧ after.get? l = some .dir ∧ (l <+: top ∨ top <+: l))

theorem OnlyMakes.sameLinks (makes : OnlyMakes t after top) : SameLinks t after := by
  intro l target
  rcases makes l with same | ⟨missing, isDir, -⟩
  · rw [same]
  · simp [missing, isDir]

theorem MakesAlong.onlyMakes (makes : MakesAlong t after dir) (insideTop : top <+: dir)
    (inside : t.StaysInside top dir) : OnlyMakes t after top := by
  intro l
  rcases makes l with same | ⟨missing, isDir, front, name, parent, level, way, rfl⟩
  · exact .inl same
  · refine .inr ⟨missing, isDir, ?_⟩
    have isAbove : front <+: dir := (List.prefix_append front [name]).trans level
    rcases inside front isAbove parent way with ⟨-, rfl⟩ | below
    · exact List.prefix_or_prefix_of_prefix level insideTop
    · exact .inr (below.trans (List.prefix_append parent [name]))

theorem onlyMakes_of_ensureDirs (made : t.ensureDirs cwd .top l.reverse = .ok after)
    (isAbove : l <+: dir) (insideTop : top <+: dir) (proper : ∀ name ∈ dir, IsName name)
    (inside : t.StaysInside top dir) : OnlyMakes t after top := by
  have makes : MakesAlong t after l :=
    .of_ensureDirs (fun name member => proper name (isAbove.subset member)) made
  exact (makes.of_prefix isAbove).onlyMakes insideTop inside

theorem get?_of_write {content : Text.Utf8.Bytes} (proper : ∀ name ∈ l, IsName name)
    (written : t.write cwd (Location.text l) content = .ok after) :
    ∃ there, t.Leads [] l there ∧ ∀ other, other ≠ there → after.get? other = t.get? other := by
  obtain ⟨there, executable, found, rfl, -⟩ := exists_of_write written
  exact ⟨there, leads_of_locate proper found, fun other different => get?_put_of_ne different⟩

end VibeLens.FileTree

namespace VibeLens

open FileTree
open VibeLens.Path (IsName)

theorem Host.outputDir_eq_ok_iff {h : Host} {root : Path} {value : String} {dir : Location} :
    h.outputDir root value = .ok dir ↔
      value ≠ "" ∧ value.toList.head? ≠ some '~' ∧ (Path.ofString value).isAbsolute = false ∧
        ∃ top, h.resolve root = .ok top ∧ top <+: dir ∧
          h.resolve ⟨.top, top ++ (Path.ofString value).names⟩ = .ok dir := by
  by_cases empty : value = ""
  · simp [Host.outputDir, empty, bind, Except.bind]
  by_cases home : value.toList.head? = some '~'
  · simp [Host.outputDir, empty, home, bind, Except.bind]
  by_cases absolute : (Path.ofString value).isAbsolute = true
  · simp [Host.outputDir, empty, home, absolute, bind, Except.bind]
  have unfolded : h.outputDir root value = (do
      let top ← Failure.ofPath (h.resolve root)
      let dir ← Failure.ofPath (h.resolve ((Path.ofLocation top).join (Path.ofString value)))
      if top.isPrefixOf dir then return dir
      else .error (.settings (.outputEscapes value))) := by
    simp only [Host.outputDir, if_neg empty, if_neg home, if_neg absolute]
  rw [unfolded, bind_eq_ok_iff]
  simp only [bind_eq_ok_iff, Failure.ofPath_eq_ok_iff, ne_eq, empty, not_false_eq_true, home,
    absolute, true_and]
  refine exists_congr fun top => and_congr_right fun _ => ?_
  have joined : (Path.ofLocation top).join (Path.ofString value) =
      ⟨.top, top ++ (Path.ofString value).names⟩ := by
    simp [Path.join, absolute, Path.ofLocation]
  rw [joined]
  constructor
  · rintro ⟨found, resolved, accepted⟩
    split at accepted
    · rename_i begins
      cases accepted
      exact ⟨by simpa using begins, resolved⟩
    · cases accepted
  · rintro ⟨begins, resolved⟩
    refine ⟨dir, resolved, ?_⟩
    rw [if_pos (by simpa using begins)]
    rfl

/-- An accepted directory begins with the names of the workspace. If following its path comes to an
end, there is no link in it and it stays inside. In any case it stays inside exactly if resolving
each of its levels once more finds nothing outside, and then making it and writing below it changes
nothing but what is inside the workspace, apart from missing directories above the workspace. -/
theorem Host.outputDir_confined (h : Host) (root value : String) (dir : Location)
    (proper : ∀ name ∈ h.cwd, IsName name)
    (accepted : h.outputDir (Path.ofString root) value = .ok dir) :
    ∃ top, h.resolve (Path.ofString root) = .ok top ∧ top <+: dir ∧
      ((∃ there, h.tree.Leads [] (top ++ (Path.ofString value).names) there) →
        h.tree.LinkFree dir ∧ h.tree.StaysInside top dir) ∧
      (h.tree.StaysInside top dir ↔
        ∀ between, between <+: dir → ∀ r,
          h.tree.follow h.cwd (h.tree.linkNesting h.cwd) [] .top between = .reached r →
          (between <+: top ∧ r.location h.cwd = between) ∨ top <+: r.location h.cwd) ∧
      (h.tree.StaysInside top dir →
        ∀ made, h.tree.ensureDirs h.cwd .top dir.reverse = .ok made →
          (∀ l, made.get? l ≠ h.tree.get? l →
            h.tree.get? l = none ∧ made.get? l = some .dir ∧ (l <+: top ∨ top <+: l)) ∧
          ∀ file content after, dir <+: file → (∀ name ∈ file, IsName name) →
            h.tree.StaysInside top file →
            made.write h.cwd (Location.text file) content = .ok after →
            ∀ l, after.get? l ≠ made.get? l → top <+: l) := by
  obtain ⟨-, -, -, top, resolvedRoot, begins, resolved⟩ := Host.outputDir_eq_ok_iff.1 accepted
  have topNames : ∀ name ∈ top, IsName name :=
    isName_of_resolve resolvedRoot proper fun _ => Path.noSlash_of_mem_ofString
  have dirNames : ∀ name ∈ dir, IsName name := by
    refine isName_of_resolve resolved proper fun name member => ?_
    rcases List.mem_append.1 member with member | member
    · exact (topNames name member).noSlash
    · exact Path.noSlash_of_mem_ofString member
  refine ⟨top, resolvedRoot, begins, ?_, staysInside_iff_follow h.cwd, ?_⟩
  · intro ends
    have free : h.tree.LinkFree dir := (leads_of_resolve resolved ends).linkFree linkFree_top
    exact ⟨free, free.staysInside dirNames begins⟩
  · intro inside made making
    have makes := onlyMakes_of_ensureDirs making (List.prefix_refl dir) begins dirNames inside
    refine ⟨fun l changed => (makes l).resolve_left changed, ?_⟩
    intro file content after below fileNames fileInside written l changed
    obtain ⟨there, way, frame⟩ := get?_of_write fileNames written
    obtain rfl : l = there := by
      by_contra different
      exact changed (frame l different)
    rcases makes.sameLinks.staysInside fileInside file (List.prefix_refl file) l way with
      ⟨-, rfl⟩ | inTop
    · exact begins.trans below
    · exact inTop

def linked : Host where
  tree := ⟨[(["ws"], .dir), (["ws", "sub"], .dir), (["ext"], .dir), (["ws", "in"], .link "sub"),
    (["ws", "loop"], .link "loop"), (["ws", "esc"], .link "../ext")]⟩
  cwd := ["ws"]
  home := "/"
  users := []
  searchPath := ""
  utilities := []
  wording := .plain

namespace linked

theorem pieces_targets :
    Path.pieces "sub" = ["sub"] ∧ Path.pieces "loop" = ["loop"] ∧
      Path.pieces "../ext" = ["..", "ext"] := by
  simp [Path.pieces, List.splitOn_cons_eq_if_modifyHead]

theorem resolve_here : linked.resolve (Path.ofString ".") = .ok ["ws"] := by
  have path : Path.ofString "." = ⟨.here, []⟩ := by
    simp [Path.ofString, Path.anchorOf, Path.isPlain, Path.pieces,
      List.splitOn_cons_eq_if_modifyHead]
  rw [path]
  refine resolve_eq_ok_iff.2 ⟨by decide, ?_, ?_⟩
  · simp [canonical, follow, Path.isAbsolute, Reached.here, Reached.location, linked]
  · rw [FileTree.find, locate_text _ _ _ (by simp) (by decide)]
    simp [walk, linked, FileTree.get?, Table.get?]

/-- After a circle of links the accepted directory can be a link that leads out of the workspace. -/
theorem outputDir_leaves_workspace :
    linked.outputDir (Path.ofString ".") "loop/../esc" = .ok ["ws", "esc"] ∧
      linked.resolve (Path.ofString ".") = .ok ["ws"] ∧
      ¬ linked.tree.StaysInside ["ws"] ["ws", "esc"] := by
  have path : Path.ofString "loop/../esc" = ⟨.here, ["loop", "..", "esc"]⟩ := by
    simp [Path.ofString, Path.anchorOf, Path.isPlain, Path.pieces,
      List.splitOn_cons_eq_if_modifyHead]
  have target : systemNames "../ext" = ["..", "ext"] := by simp [systemNames, pieces_targets]
  have resolved : linked.resolve ⟨.top, ["ws", "loop", "..", "esc"]⟩ = .ok ["ws", "esc"] := by
    refine resolve_eq_ok_iff.2 ⟨by decide, ?_, ?_⟩
    · simp [canonical, follow, Path.isAbsolute, Reached.top, Reached.location, Reached.down, linked,
        linkNesting, links, FileTree.get?, Table.get?, pieces_targets, isAbsoluteText, leaveOver,
        Path.collapse, Path.isPlain]
    · rw [FileTree.find, locate_text _ _ _ (by simp) (by decide)]
      simp [walk, linkLimit, target, linked, FileTree.get?, Table.get?, isAbsoluteText]
  have leaves : linked.tree.follow [] 4 [] .top ["ws", "esc"] = .reached ⟨none, ["ext"]⟩ := by
    simp [follow, linked, Reached.top, Reached.down, Reached.up, Reached.location, FileTree.get?,
      Table.get?, pieces_targets, isAbsoluteText]
  refine ⟨?_, resolve_here, ?_⟩
  · refine Host.outputDir_eq_ok_iff.2 ⟨by decide, by decide, by simp [path, Path.isAbsolute], ?_⟩
    exact ⟨["ws"], resolve_here, by simp, by simpa [path] using resolved⟩
  · intro inside
    have impossible := inside _ (List.prefix_refl _) _ (leads_of_follow leaves)
    simp [Reached.location] at impossible

/-- A link to a directory of the workspace is followed, and what comes out stays inside. -/
theorem outputDir_confined_through_link :
    linked.outputDir (Path.ofString ".") "in/new" = .ok ["ws", "sub", "new"] ∧
      linked.tree.StaysInside ["ws"] ["ws", "sub", "new"] := by
  have path : Path.ofString "in/new" = ⟨.here, ["in", "new"]⟩ := by
    simp [Path.ofString, Path.anchorOf, Path.isPlain, Path.pieces,
      List.splitOn_cons_eq_if_modifyHead]
  have came : linked.tree.follow linked.cwd (linked.tree.linkNesting linked.cwd) [] .top
      ["ws", "in", "new"] = .reached ⟨none, ["ws", "sub", "new"]⟩ := by
    simp [follow, Reached.top, Reached.location, Reached.down, linked, linkNesting, links,
      FileTree.get?, Table.get?, pieces_targets, isAbsoluteText]
  have resolved : linked.resolve ⟨.top, ["ws", "in", "new"]⟩ = .ok ["ws", "sub", "new"] := by
    refine resolve_eq_ok_iff.2 ⟨by decide, ?_, ?_⟩
    · simp [canonical, Path.isAbsolute, came, Reached.location]
    · rw [FileTree.find, locate_text _ _ _ (by simp) (by decide)]
      simp [walk, linked, FileTree.get?, Table.get?]
  have accepted : linked.outputDir (Path.ofString ".") "in/new" = .ok ["ws", "sub", "new"] := by
    refine Host.outputDir_eq_ok_iff.2 ⟨by decide, by decide, by simp [path, Path.isAbsolute], ?_⟩
    exact ⟨["ws"], resolve_here, by simp, by simpa [path] using resolved⟩
  obtain ⟨top, resolvedRoot, -, free, -, -⟩ :=
    Host.outputDir_confined linked "." "in/new" _ (by decide) accepted
  obtain rfl : top = ["ws"] := by simpa [resolve_here] using resolvedRoot.symm
  have way : linked.tree.Leads [] ["ws", "in", "new"] ["ws", "sub", "new"] := leads_of_follow came
  exact ⟨accepted, (free ⟨_, by simpa [path] using way⟩).2⟩

end linked
end VibeLens
