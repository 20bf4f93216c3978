import VibeLens.Proofs.Workspace.Confinement
import VibeLens.Proofs.Workspace.Indexing

set_option autoImplicit false

/-!
What indexing leaves behind, whether it succeeds or not. It makes the missing levels of the directory
for the index and writes one file. Both are found by following links, and only the directory has been
checked: a link with the name of the index is followed wherever it leads.
-/

namespace VibeLens

open FileTree Text
open VibeLens.Path (IsName)

namespace FileTree

variable {t middle after : FileTree} {cwd top dir l there : Location}

/-- A file was written, over another one or where nothing was. -/
def Writes (t after : FileTree) (l : Location) : Prop :=
  ∃ content executable, after.get? l = some (.file content executable) ∧
    ((∃ old, t.get? l = some (.file old executable)) ∨ t.get? l = none ∧ executable = false)

/-- The tree is as it was but for levels of a directory that were missing and, if it was written, the
file to which the name of the index in this directory leads. -/
def IndexedIn (t after : FileTree) (dir : Location) : Prop :=
  ∀ l, after.get? l = t.get? l ∨
    (t.get? l = none ∧ after.get? l = some .dir ∧
      ∃ front name parent, front ++ [name] <+: dir ∧ t.Leads [] front parent ∧ l = parent ++ [name]) ∨
    (t.Leads [] (dir ++ [indexName]) l ∧ Writes t after l)

theorem MakesAlong.indexedIn (makes : MakesAlong t after dir) : IndexedIn t after dir :=
  fun l => (makes l).imp_right .inl

theorem isName_indexName : IsName indexName := by decide

theorem MakesAlong.write (makes : MakesAlong t middle dir) (proper : ∀ name ∈ dir, IsName name)
    {content : Utf8.Bytes}
    (written : middle.write cwd (Location.text (dir ++ [indexName])) content = .ok after) :
    IndexedIn t after dir := by
  have names : ∀ name ∈ dir ++ [indexName], IsName name :=
    List.forall_mem_append.mpr ⟨proper, List.forall_mem_singleton.mpr isName_indexName⟩
  obtain ⟨there, executable, found, rfl, before⟩ := exists_of_write written
  intro l
  by_cases same : l = there
  · -- What stood there when the file was opened was no new directory.
    have kept : middle.get? l = t.get? l := by
      apply (makes l).resolve_right
      rintro ⟨-, isDir, -⟩
      rw [← same, isDir] at before
      rcases before with ⟨_, impossible⟩ | ⟨impossible, -⟩
      · cases impossible
      · cases impossible
    subst same
    have notTop : l ≠ [] := by
      rintro rfl
      rcases before with ⟨_, impossible⟩ | ⟨impossible, -⟩
      · cases impossible
      · cases impossible
    refine .inr (.inr ⟨makes.sameLinks.leads (leads_of_locate names found), content, executable,
      get?_put_self notTop, ?_⟩)
    rw [← kept]
    exact before.imp_right fun ⟨missing, mode, _⟩ => ⟨missing, mode⟩
  · rw [get?_put_of_ne same]
    exact (makes l).imp_right .inl

theorem IndexedIn.get?_eq (indexed : IndexedIn t after dir) (proper : ∀ name ∈ dir, IsName name)
    (free : t.LinkFree (dir ++ [indexName])) (l : Location) :
    after.get? l = t.get? l ∨ (l <+: dir ∧ t.get? l = none ∧ after.get? l = some .dir) ∨
      (l = dir ++ [indexName] ∧ Writes t after l) := by
  have names : ∀ name ∈ dir ++ [indexName], IsName name :=
    List.forall_mem_append.mpr ⟨proper, List.forall_mem_singleton.mpr isName_indexName⟩
  rcases indexed l with same | ⟨missing, isDir, front, name, parent, level, way, rfl⟩ | ⟨way, writes⟩
  · exact .inl same
  · have above : front <+: dir := (List.prefix_append front [name]).trans level
    have literal : t.Leads [] front front :=
      (free.of_prefix (above.trans (List.prefix_append dir _))).leads fun name member =>
        proper name (above.subset member)
    obtain rfl := way.unique literal
    exact .inr (.inl ⟨level, missing, isDir⟩)
  · exact .inr (.inr ⟨way.unique (free.leads names), writes⟩)

end FileTree

namespace Host

variable {h after : Host} {root : Path} {outDir : Option Path} {settings : Option Settings}
  {outcome : Except Failure IndexSummary}

theorem exists_of_indexing (run : h.indexing root outDir settings = (after, outcome)) :
    after = h ∨
      ∃ plan middle, h.indexPlan root outDir settings = .ok plan ∧
        (h.tree.ensureDirs h.cwd plan.dir.anchor plan.dir.names.reverse = .ok middle ∨
          middle = h.tree.dirsLeft h.cwd plan.dir.anchor plan.dir.names.reverse) ∧
        (after.tree = middle ∨
          ∃ content, middle.write h.cwd (artifact plan) content = .ok after.tree) := by
  unfold indexing at run
  split at run
  · exact .inl (Prod.mk.inj run).1.symm
  · rename_i plan planned
    right
    split at run
    · obtain ⟨rfl, -⟩ := Prod.mk.inj run
      exact ⟨plan, _, planned, .inr rfl, .inl rfl⟩
    · rename_i made making
      refine ⟨plan, made, planned, .inl making, ?_⟩
      unfold writeIndex at run
      split at run
      · obtain ⟨rfl, -⟩ := Prod.mk.inj run
        exact .inl rfl
      · simp only at run
        split at run
        · obtain ⟨rfl, -⟩ := Prod.mk.inj run
          exact .inl rfl
        · rename_i tree written
          obtain ⟨rfl, -⟩ := Prod.mk.inj run
          exact .inr ⟨_, written⟩

theorem exists_outputDir_of_indexPlan {plan : IndexPlan}
    (planned : h.indexPlan root none settings = .ok plan) :
    ∃ dir, h.outputDir (Path.ofLocation plan.root) plan.settings.outputDir = .ok dir ∧
      plan.dir = Path.ofLocation dir := by
  obtain ⟨-, -, chosen, -⟩ := indexPlan_eq_ok_iff.mp planned
  rw [indexDir] at chosen
  cases found : h.outputDir (Path.ofLocation plan.root) plan.settings.outputDir with
  | error e =>
    rw [found] at chosen
    cases chosen
  | ok dir =>
    rw [found] at chosen
    exact ⟨dir, rfl, (Except.ok.inj chosen).symm⟩

theorem isName_of_outputDir {top dir : Location} {value : String}
    (cwdNames : ∀ name ∈ h.cwd, IsName name) (names : ∀ name ∈ top, IsName name)
    (accepted : h.outputDir (Path.ofLocation top) value = .ok dir) : ∀ name ∈ dir, IsName name := by
  obtain ⟨-, -, -, inner, resolved, -, resolvedDir⟩ := outputDir_eq_ok_iff.mp accepted
  have innerNames : ∀ name ∈ inner, IsName name :=
    isName_of_resolve resolved cwdNames fun name member => (names name member).noSlash
  apply isName_of_resolve resolvedDir cwdNames
  intro name member
  rcases List.mem_append.mp member with member | member
  · exact (innerNames name member).noSlash
  · exact Path.noSlash_of_mem_ofString member

theorem resolve_of_linkFree {top inner : Location} (names : ∀ name ∈ top, IsName name)
    (free : h.tree.LinkFree top) (resolved : h.resolve (Path.ofLocation top) = .ok inner) :
    inner = top :=
  have literal : h.tree.Leads [] top top := free.leads names
  (leads_of_resolve resolved ⟨top, literal⟩).unique literal

/-- Indexing into the directory that the settings name changes nothing but the levels of this directory
that are missing, where the names above them lead, and the file to which the name of the index in it
leads. If there is a link neither in the root, nor in the directory, nor in place of the index, then
what changes is that directory and the index in it, below the root; the root itself is made only if it
is missing. The root and the directory have no link in them if following their paths has an end. -/
theorem indexing_footprint (h after : Host) (root : String) (settings : Option Settings)
    (outcome : Except Failure IndexSummary) (grounded : h.Grounded)
    (run : h.indexing (Path.ofString root) none settings = (after, outcome)) :
    after = h ∨
    ∃ plan dir, h.indexPlan (Path.ofString root) none settings = .ok plan ∧
      h.outputDir (Path.ofLocation plan.root) plan.settings.outputDir = .ok dir ∧
      h.tree.IndexedIn after.tree dir ∧
      ((∃ there, h.tree.Leads (startOf h.cwd (Path.ofString root)) (Path.ofString root).names there) →
        h.tree.LinkFree plan.root) ∧
      (h.tree.LinkFree plan.root →
        (∃ there, h.tree.Leads plan.root (Path.ofString plan.settings.outputDir).names there) →
        h.tree.LinkFree dir) ∧
      (h.tree.LinkFree plan.root → h.tree.LinkFree (dir ++ [indexName]) →
        plan.root <+: dir ∧
        (∀ l, ¬ plan.root <+: l → after.tree.get? l = h.tree.get? l ∨
          (h.tree.get? plan.root = none ∧ l <+: plan.root ∧ h.tree.get? l = none ∧
            after.tree.get? l = some .dir)) ∧
        (∀ l, plan.root <+: l → after.tree.get? l = h.tree.get? l ∨
          (l <+: dir ∧ h.tree.get? l = none ∧ after.tree.get? l = some .dir) ∨
          (l = dir ++ [indexName] ∧ h.tree.Writes after.tree l))) := by
  rcases exists_of_indexing run with rfl | ⟨plan, middle, planned, making, writing⟩
  · exact .inl rfl
  right
  obtain ⟨dir, accepted, dir_eq⟩ := exists_outputDir_of_indexPlan planned
  obtain ⟨resolved, -⟩ := indexPlan_eq_ok_iff.mp planned
  obtain ⟨-, -, -, inner, resolvedAgain, begins, resolvedDir⟩ := outputDir_eq_ok_iff.mp accepted
  have cwdNames := grounded.tree.isName grounded.cwd
  have rootNames : ∀ name ∈ plan.root, IsName name :=
    isName_of_resolve resolved cwdNames fun _ => Path.noSlash_of_mem_ofString
  have dirNames : ∀ name ∈ dir, IsName name := isName_of_outputDir cwdNames rootNames accepted
  have indexed : h.tree.IndexedIn after.tree dir := by
    rw [artifact, dir_eq] at writing
    rw [dir_eq] at making
    have makes : h.tree.MakesAlong middle dir := by
      rcases making with made | rfl
      · exact .of_ensureDirs dirNames made
      · exact .of_dirsLeft dirNames
    rcases writing with rfl | ⟨content, written⟩
    · exact makes.indexedIn
    · exact makes.write dirNames written
  have sameRoot (free : h.tree.LinkFree plan.root) : inner = plan.root :=
    resolve_of_linkFree rootNames free resolvedAgain
  refine ⟨plan, dir, planned, accepted, indexed, ?_, ?_, ?_⟩
  · exact grounded.linkFree_of_resolve resolved
  · rintro free ⟨there, way⟩
    rw [sameRoot free] at resolvedDir
    have whole := Leads.append_iff.mpr ⟨plan.root, free.leads rootNames, way⟩
    exact (leads_of_resolve resolvedDir ⟨there, whole⟩).linkFree linkFree_top
  · intro free clear
    rw [sameRoot free] at begins
    have changes := indexed.get?_eq dirNames clear
    refine ⟨begins, fun l outside => ?_, fun l _ => changes l⟩
    rcases changes l with same | ⟨level, missing, isDir⟩ | ⟨rfl, -⟩
    · exact .inl same
    · have above : l <+: plan.root :=
        (List.prefix_or_prefix_of_prefix level begins).resolve_right outside
      refine .inr ⟨?_, above, missing, isDir⟩
      by_contra there
      obtain ⟨node, found⟩ := Option.ne_none_iff_exists'.mp there
      have different : l ≠ plan.root := by
        rintro rfl
        exact outside (List.prefix_refl _)
      rw [grounded.tree.isDir_of_prefix found above different] at missing
      cases missing
    · exact absurd (begins.trans (List.prefix_append dir _)) outside

end Host

def holding (node : Node) : Host where
  tree := ⟨[(["ws"], .dir), (["ws", ".vibe-outline"], .dir),
    (["ws", ".vibe-outline", "outline.jsonl"], node), (["ext"], .dir),
    (["ext", "notes"], .file [107] false)]⟩
  cwd := ["ws"]
  home := "/"
  users := []
  searchPath := ""
  utilities := []
  wording := .plain

namespace holding

variable (node : Node)

theorem grounded : (holding node).Grounded where
  tree := .of_keys [["ws"], ["ws", ".vibe-outline"], ["ws", ".vibe-outline", "outline.jsonl"],
    ["ext"], ["ext", "notes"]] rfl (by decide) (by decide)
    (by simp [holding, FileTree.get?, Table.get?])
  cwd := rfl

theorem resolve_root : (holding node).resolve (Path.ofLocation ["ws"]) = .ok ["ws"] :=
  (grounded node).tree.resolve_ofLocation rfl Node.dir_ne_link (by decide)

theorem resolve_dir : (holding node).resolve (Path.ofLocation ["ws", ".vibe-outline"]) =
    .ok ["ws", ".vibe-outline"] :=
  (grounded node).tree.resolve_ofLocation rfl Node.dir_ne_link (by decide)

theorem outputDir_eq : (holding node).outputDir (Path.ofLocation ["ws"]) ".vibe-outline" =
    .ok ["ws", ".vibe-outline"] := by
  have path : Path.ofString ".vibe-outline" = ⟨.here, [".vibe-outline"]⟩ := by
    simp [Path.ofString, Path.anchorOf, Path.isPlain, Path.pieces,
      List.splitOn_cons_eq_if_modifyHead]
  refine Host.outputDir_eq_ok_iff.mpr ⟨by decide, by decide, by simp [path, Path.isAbsolute], ?_⟩
  exact ⟨["ws"], resolve_root node, by decide, path ▸ resolve_dir node⟩

def plan : IndexPlan := ⟨["ws"], .default, Path.ofLocation ["ws", ".vibe-outline"]⟩

theorem indexPlan_eq :
    (holding node).indexPlan (Path.ofString "/ws") none (some .default) = .ok plan := by
  have root : Path.ofString "/ws" = Path.ofLocation ["ws"] :=
    ofString_text (l := ["ws"]) (by decide)
  rw [root]
  refine Host.indexPlan_eq_ok_iff.mpr ⟨resolve_root node, rfl, ?_, by decide⟩
  rw [Host.indexDir, plan]
  simp only [Settings.default, outputDir_eq]
  rfl

theorem ensureDirs_eq : (holding node).tree.ensureDirs (holding node).cwd plan.dir.anchor
    plan.dir.names.reverse = .ok (holding node).tree :=
  (grounded node).tree.ensureDirs_self rfl (by decide)

/-- An index that is a file is written in its place, and the file outside is kept. -/
theorem indexing_keeps_outside :
    ∃ after outcome,
      (holding (.file [] false)).indexing (Path.ofString "/ws") none (some .default) =
        (after, outcome) ∧
      after.tree.get? ["ext", "notes"] = some (.file [107] false) := by
  refine ⟨_, _, rfl, ?_⟩
  rcases Host.indexing_footprint (holding (.file [] false)) _ "/ws" (some .default) _
      (grounded _) rfl with unchanged | ⟨plan', dir, planned, accepted, -, -, -, confined⟩
  · rw [unchanged]
    rfl
  · cases planned.symm.trans (indexPlan_eq _)
    cases accepted.symm.trans (outputDir_eq _)
    have free : (holding (.file [] false)).tree.LinkFree
        (["ws", ".vibe-outline"] ++ ["outline.jsonl"]) :=
      (grounded _).tree.linkFree rfl (Node.file_ne_link _ _)
    obtain ⟨-, outside, -⟩ := confined (free.of_prefix (by decide)) free
    rcases outside ["ext", "notes"] (by decide) with same | ⟨missing, -⟩
    · rw [same]
      rfl
    · cases missing

def leadingOut : Host := holding (.link "../../ext/notes")

theorem outlineRecords_leadingOut : leadingOut.outlineRecords plan = .ok [] :=
  Host.outlineRecords_of_no_source (grounded _).tree.toProper (resolve_root _) (resolve_dir _)
    (show ∀ key ∈ leadingOut.tree.nodes.keys, _ by decide)

/-- What the link leads to is overwritten. -/
theorem indexing_overwrites_outside :
    leadingOut.resolve (Path.ofString "/ws") = .ok ["ws"] ∧
      leadingOut.tree.get? ["ext", "notes"] = some (.file [107] false) ∧
      ∃ after summary,
        leadingOut.indexing (Path.ofString "/ws") none (some .default) = (after, .ok summary) ∧
        after.tree.get? ["ext", "notes"] = some (.file [] false) := by
  have target : systemNames "../../ext/notes" = ["..", "..", "ext", "notes"] := by
    simp [systemNames, Path.pieces, List.splitOn_cons_eq_if_modifyHead]
  have located : leadingOut.tree.locate ["ws"] true
      (Location.text ["ws", ".vibe-outline", "outline.jsonl"]) = .ok ["ext", "notes"] := by
    rw [locate_text _ _ _ (by simp) (by decide)]
    simp [FileTree.walk, linkLimit, target, leadingOut, holding, FileTree.get?, Table.get?,
      isAbsoluteText]
  have isFile : leadingOut.tree.get? ["ext", "notes"] = some (.file [107] false) := rfl
  have written : leadingOut.tree.write ["ws"] (Host.artifact plan) [] =
      .ok (leadingOut.tree.put ["ext", "notes"] (.file [] false)) := by
    rw [write, show Host.artifact plan = Location.text ["ws", ".vibe-outline", "outline.jsonl"] from rfl,
      located]
    simp only [isFile]
  have planned : leadingOut.indexPlan (Path.ofString "/ws") none (some .default) = .ok plan :=
    indexPlan_eq _
  have making : leadingOut.tree.ensureDirs leadingOut.cwd plan.dir.anchor plan.dir.names.reverse =
      .ok leadingOut.tree := ensureDirs_eq _
  have run : leadingOut.indexing (Path.ofString "/ws") none (some .default) =
      (leadingOut.withTree (leadingOut.tree.put ["ext", "notes"] (.file [] false)),
        .ok ⟨0, 0, Host.artifact plan⟩) := by
    simp only [Host.indexing, planned, making]
    exact Host.writeIndex_eq_ok_iff.mpr
      ⟨[], _, outlineRecords_leadingOut, written, List.forall_mem_nil _, rfl, rfl⟩
  refine ⟨(Host.indexPlan_eq_ok_iff.mp planned).1, isFile, _, _, run, ?_⟩
  exact get?_put_self (List.cons_ne_nil _ _)

end holding
end VibeLens
