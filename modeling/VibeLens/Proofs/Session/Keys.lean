import VibeLens.Proofs.Session.Isolation
import VibeLens.Proofs.Workspace.Confinement
import VibeLens.Proofs.Workspace.Indexing

set_option autoImplicit false

/-!
The key of a document is the text of its canonical location. It has no link in it and is its own key,
and two paths have one key exactly if the system finds one object by both. So a document that was saved
under one name can be asked for and closed under another.
-/

namespace VibeLens

open FileTree
open VibeLens.Path (IsName Normal)

namespace Host

variable {h : Host} {p q : Path} {l : Location} {text : String}

/-! ### Home directories -/

theorem normal_of_expandUser (normal : p.Normal) (expanded : h.expandUser p = .ok q) : q.Normal := by
  unfold expandUser at expanded
  split at expanded
  · rename_i first rest anchor names
    have later {name : String} (member : name ∈ rest) : name ∈ p.names := names ▸ .tail _ member
    split at expanded
    · simp only at expanded
      split at expanded
      · rename_i dir _
        cases expanded
        have home : (Path.ofString dir).Normal := Path.normal_ofString dir
        exact
          { plain := fun name member => (List.mem_append.mp member).elim (home.plain name)
              fun member => normal.plain name (later member)
            noSlash := fun name member => (List.mem_append.mp member).elim (home.noSlash name)
              fun member => normal.noSlash name (later member) }
      · cases expanded
    · cases expanded
      exact normal
  · cases expanded
    exact normal

/-- Only a leading tilde is expanded. -/
theorem expandUser_eq_self (noTilde : p.toString.toList.head? ≠ some '~') :
    h.expandUser p = .ok p := by
  unfold expandUser
  split
  · rename_i first rest anchor names
    split
    · rename_i user tilde
      obtain ⟨after, starts⟩ := Path.exists_intercalate_cons first rest
      refine absurd ?_ noTilde
      rw [Path.toString, if_neg (by simp [names]), anchor, names, Path.Anchor.text,
        String.empty_append, starts, tilde]
      rfl
    · rfl
  · rfl

/-! ### Canonical locations -/

structure Sound (h : Host) : Prop where
  grounded : h.Grounded
  zeroFree : h.tree.ZeroFree

/-- A location as a key has it: of proper names, without zero characters and without a link. -/
structure IsCanonical (h : Host) (l : Location) : Prop where
  proper : ∀ name ∈ l, IsName name
  free : h.tree.LinkFree l
  noZero : ∀ name ∈ l, hasZero name = false

theorem documentKey_of_resolve (expanded : h.expandUser (Path.ofString text) = .ok p)
    (resolved : h.resolve p = .ok l) : h.documentKey text = .ok (Location.text l) := by
  rw [documentKey, resolveUser, expanded, ok_bind, resolved]
  rfl

/-- The key of a canonical location is its text. -/
theorem IsCanonical.documentKey_text (canonical : h.IsCanonical l) :
    h.documentKey (Location.text l) = .ok (Location.text l) := by
  have resolved : h.resolve (Path.ofLocation l) = .ok l :=
    canonical.free.resolve_ofLocation canonical.proper
      ((noZero_text_iff canonical.proper).mpr canonical.noZero)
  refine documentKey_of_resolve ?_ resolved
  rw [ofString_text canonical.proper]
  rfl

/-- What a path leads to is canonical, and it is the result of resolving the path. -/
theorem Sound.isCanonical_of_leads (sound : h.Sound) (normal : p.Normal)
    (noZero : hasZero p.toString = false) (way : h.tree.Leads (startOf h.cwd p) p.names l) :
    h.IsCanonical l ∧ h.resolve p = .ok l := by
  have cwd := sound.grounded.cwd
  have proper : ∀ name ∈ l, IsName name :=
    way.isName normal.noSlash (isName_startOf (sound.grounded.tree.isName cwd))
  have start : ∀ name ∈ startOf h.cwd p, hasZero name = false := by
    unfold startOf
    split
    · exact List.forall_mem_nil _
    · exact sound.zeroFree.noZero_of_get? cwd
  have free : h.tree.LinkFree l := way.linkFree (sound.grounded.linkFree_startOf p)
  have clean : ∀ name ∈ l, hasZero name = false :=
    way.noZero sound.zeroFree (fun name member => normal.noZero_of_mem noZero member) start
  exact ⟨⟨proper, free, clean⟩, resolve_of_leads way free proper noZero⟩

/-! ### Names of one object -/

/-- The path names an object, which the system finds at this location. The path is not given relative
to a home directory. -/
structure Names (h : Host) (p : Path) (l : Location) : Prop where
  normal : p.Normal
  noTilde : p.toString.toList.head? ≠ some '~'
  noZero : hasZero p.toString = false
  found : ∃ node, h.tree.find h.cwd p.toString = .ok (l, node)

theorem Names.leads (names : h.Names p l) : h.tree.Leads (startOf h.cwd p) p.names l := by
  obtain ⟨node, found⟩ := names.found
  simpa only [names.normal.ofString_toString] using
    leads_of_locate_ofString (find_eq_ok_iff.mp found).1

/-- The key of a path that names an object is the text of where the object is. -/
theorem Names.documentKey (names : h.Names p l) (sound : h.Sound) :
    h.IsCanonical l ∧ h.documentKey p.toString = .ok (Location.text l) := by
  obtain ⟨canonical, resolved⟩ := sound.isCanonical_of_leads names.normal names.noZero names.leads
  refine ⟨canonical, documentKey_of_resolve ?_ resolved⟩
  rw [names.normal.ofString_toString]
  exact expandUser_eq_self names.noTilde

end Host

/-! ### Entries of a session -/

namespace Session

variable {s : Session} {document other : String}

theorem diagnostics_close_self : (s.close document).diagnostics document = [] := by
  have gone := s.store.get?_entries_handle_self (.forget document)
  simp only [Store.handle, Store.entryAfter, Store.Request.document] at gone
  rw [close, diagnostics, Store.get, gone]
  rfl

theorem diagnostics_close_of_ne (different : document ≠ other) :
    (s.close document).diagnostics other = s.diagnostics other := by
  have kept := s.store.get?_entries_handle_of_ne (r := .forget document) different
  simp only [Store.handle] at kept
  rw [close, diagnostics, Store.get, kept]
  rfl

end Session

/-- A save shows the entry of its document and leaves all others. -/
theorem Host.entry_of_save {h h' : Host} {s saved : Session} {p : Path} {key : String}
    {shown : List Diagnostic} (named : h.documentKey p.toString = .ok key)
    (done : h.save s p = .ok (h', saved, shown)) :
    saved.diagnostics key = shown ∧
      ∀ other, key ≠ other → saved.diagnostics other = s.diagnostics other := by
  rw [save, Failure.ofPath_eq_ok_iff.mpr named, ok_bind] at done
  unfold Session.beginSave at done
  by_cases checks : s.checksSaves
  · simp only [checks, if_true] at done
    obtain ⟨⟨h'', result⟩, -, done⟩ := bind_eq_ok_iff.mp done
    cases done
    refine ⟨rfl, fun other different => ?_⟩
    simp only [Session.endSave, Session.diagnostics, Store.get, Store.begin]
    rw [Store.get?_entries_replace _ _ _ _ _ different]
  · simp only [checks, Bool.false_eq_true, if_false] at done
    cases done
    simp only [Session.diagnostics, Store.get, Store.clear]
    refine ⟨by simp, fun other different => ?_⟩
    rw [Table.get?_erase, if_neg different]

open Host in
/-- The key of a document is canonical: if following the path meets no circle of links, it is the text
of a location of proper names without a link, and is its own key. Two paths that name objects have one
key exactly if it is one object. So a document that was saved is found and closed under every name of
the same object, and no other object's. -/
theorem documentKey_canonical (h : Host) (sound : h.Sound) :
    (∀ (text : String) (p : Path), h.expandUser (Path.ofString text) = .ok p →
      hasZero p.toString = false → (∃ there, h.tree.Leads (startOf h.cwd p) p.names there) →
        ∃ l, h.documentKey text = .ok (Location.text l) ∧ (∀ name ∈ l, IsName name) ∧
          h.tree.LinkFree l ∧ h.documentKey (Location.text l) = .ok (Location.text l)) ∧
    (∀ (p q : Path) (l m : Location), h.Names p l → h.Names q m →
      ∃ first second, h.documentKey p.toString = .ok first ∧ h.documentKey q.toString = .ok second ∧
        (first = second ↔ l = m)) ∧
    ∀ (h' : Host) (s saved : Session) (p q : Path) (l m : Location) (shown : List Diagnostic),
      h'.Sound → h.Names p l → h'.Names q m → h.save s p = .ok (h', saved, shown) →
        ∃ key closed, h.documentKey p.toString = .ok key ∧ saved.diagnostics key = shown ∧
          (∀ other, key ≠ other → saved.diagnostics other = s.diagnostics other) ∧
          h'.close saved q = .ok closed ∧
          (l = m → h'.diagnostics saved q = .ok shown ∧ closed.diagnostics key = [] ∧
            ∀ other, key ≠ other → closed.diagnostics other = s.diagnostics other) ∧
          (l ≠ m → closed.diagnostics key = shown) := by
  refine ⟨?_, ?_, ?_⟩
  · rintro text p expanded noZero ⟨l, way⟩
    have normal : p.Normal := normal_of_expandUser (Path.normal_ofString text) expanded
    obtain ⟨canonical, resolved⟩ := sound.isCanonical_of_leads normal noZero way
    exact ⟨l, documentKey_of_resolve expanded resolved, canonical.proper, canonical.free,
      canonical.documentKey_text⟩
  · intro p q l m names others
    obtain ⟨one, key⟩ := names.documentKey sound
    obtain ⟨two, other⟩ := others.documentKey sound
    exact ⟨_, _, key, other, text_inj one.proper two.proper, congrArg Location.text⟩
  · intro h' s saved p q l m shown sound' names others done
    obtain ⟨one, key⟩ := names.documentKey sound
    obtain ⟨two, other⟩ := others.documentKey sound'
    obtain ⟨entry, rest⟩ := entry_of_save key done
    have asked : h'.diagnostics saved q = .ok (saved.diagnostics (Location.text m)) := by
      rw [Host.diagnostics, other]
      rfl
    have closes : h'.close saved q = .ok (saved.close (Location.text m)) := by
      rw [Host.close, other]
      rfl
    refine ⟨_, _, key, entry, rest, closes, ?_, ?_⟩
    · rintro rfl
      refine ⟨by rw [asked, entry], Session.diagnostics_close_self, fun other different => ?_⟩
      rw [Session.diagnostics_close_of_ne different, rest other different]
    · intro different
      rw [Session.diagnostics_close_of_ne, entry]
      exact fun same => different (text_inj two.proper one.proper same).symm

namespace linked

theorem grounded : linked.Grounded where
  tree := .of_keys [["ws"], ["ws", "sub"], ["ext"], ["ws", "in"], ["ws", "loop"], ["ws", "esc"]] rfl
    (by decide) (by decide) (by simp [linked, FileTree.get?, Table.get?])
  cwd := rfl

theorem sound : linked.Sound where
  grounded := grounded
  zeroFree :=
    { names := show ∀ key ∈ [["ws"], ["ws", "sub"], ["ext"], ["ws", "in"], ["ws", "loop"],
        ["ws", "esc"]], ∀ name ∈ key, hasZero name = false by decide
      targets := by simp [linked, show hasZero "sub" = false by decide,
        show hasZero "loop" = false by decide, show hasZero "../ext" = false by decide] }

theorem find_in : linked.tree.find linked.cwd "in" = .ok (["ws", "sub"], .dir) := by
  have names : systemNames "in" = ["in"] ∧ systemNames "sub" = ["sub"] := by
    simp [systemNames, Path.pieces, List.splitOn_cons_eq_if_modifyHead]
  simp [FileTree.find, locate, FileTree.walk, linkLimit, names, linked, FileTree.get?, Table.get?,
    isAbsoluteText]

theorem find_sub : linked.tree.find linked.cwd "sub" = .ok (["ws", "sub"], .dir) := by
  have names : systemNames "sub" = ["sub"] := by
    simp [systemNames, Path.pieces, List.splitOn_cons_eq_if_modifyHead]
  simp [FileTree.find, locate, FileTree.walk, linkLimit, names, linked, FileTree.get?, Table.get?,
    isAbsoluteText]

theorem leads_missing : linked.tree.Leads ["ws"] ["in", "..", "esc", "new"] ["ext", "new"] := by
  simp [Leads.cons_iff, follows, linked, FileTree.get?, Table.get?, Path.isPlain, pieces_targets,
    linkStart, isAbsoluteText, Leads.nil]

def quiet : Session :=
  ⟨{ Settings.default with checking := { Settings.default.checking with enabled := false } },
    ⟨[("/ws/sub", [⟨2, 4, "unexpected token"⟩])], [("/ws/sub", 1)]⟩, none⟩

/-- What was saved through a link is closed under the name of the object itself. -/
theorem saved_through_link_closed_directly :
    ∃ key saved closed l, linked.documentKey "in" = .ok key ∧ linked.documentKey "sub" = .ok key ∧
      linked.save quiet ⟨.here, ["in"]⟩ = .ok (linked, saved, []) ∧
      linked.close saved ⟨.here, ["sub"]⟩ = .ok closed ∧ closed.diagnostics key = [] ∧
      linked.documentKey "in/../esc/new" = .ok (Location.text l) ∧ linked.tree.LinkFree l := by
  have path : Path.ofString "in/../esc/new" = ⟨.here, ["in", "..", "esc", "new"]⟩ := by
    simp [Path.ofString, Path.anchorOf, Path.isPlain, Path.pieces,
      List.splitOn_cons_eq_if_modifyHead]
  have throughLink : linked.Names ⟨.here, ["in"]⟩ ["ws", "sub"] :=
    ⟨⟨by decide, by decide⟩, by decide, by decide, _, find_in⟩
  have direct : linked.Names ⟨.here, ["sub"]⟩ ["ws", "sub"] :=
    ⟨⟨by decide, by decide⟩, by decide, by decide, _, find_sub⟩
  obtain ⟨single, equal, entries⟩ := documentKey_canonical linked sound
  obtain ⟨l, missing, -, free, -⟩ :=
    single "in/../esc/new" ⟨.here, ["in", "..", "esc", "new"]⟩ (by rw [path]; rfl) (by decide)
      ⟨_, leads_missing⟩
  obtain ⟨first, second, keyIn, keySub, same⟩ := equal _ _ _ _ throughLink direct
  obtain rfl := same.mpr rfl
  have done : linked.save quiet ⟨.here, ["in"]⟩ =
      .ok (linked, { quiet with store := quiet.store.clear first }, []) := by
    rw [Host.save, keyIn]
    rfl
  obtain ⟨key, closed, named, -, -, closes, both, -⟩ :=
    entries linked quiet _ _ _ _ _ _ sound throughLink direct done
  cases named.symm.trans keyIn
  exact ⟨_, _, closed, l, keyIn, keySub, done, closes, (both rfl).2.1, missing, free⟩

end linked
end VibeLens
