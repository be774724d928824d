import LandscapeKit.HostnetOwn

/-!
`execute_unmanage` as a whole: what becomes of the planned files when it returns and when it
fails, whatever an outside process does to them in between.
-/

namespace LandscapeKit.Hostnet

open Faults Faults.Prog

/-- A planned file as it was when the plan was made. -/
def originalEntry (edit : Edit) : Entry := .file (.utf8 edit.originalContent) edit.metadata

def editedEntry (edit : Edit) : Entry := .file (.utf8 edit.content) edit.metadata

/-- The states a plan knows of a file. -/
def Planned (edits : List Edit) (p : Text) (x : Entry) : Prop :=
  ∃ e ∈ edits, e.path = p ∧ (x = originalEntry e ∨ x = editedEntry e)

section Loops

variable {α : Type} {p : Text} {A N : Entry → Prop} {I : Sys → Prop} {f : α → Op Unit}
  {key : α → Text} {l : List α}

theorem forEach_at_others (hI : ∀ a ∈ l, Spec I (f a) (fun _ => I) fun _ => I)
    (hkeeps : ∀ a ∈ l, Within (Keeps p) (f a)) {F : Sys → Prop}
    (hF : ∀ s t, Keeps p s t → F s → F t) :
    Spec (fun s => F s ∧ I s) (forEach f l) (fun _ s => F s ∧ I s) fun _ s => F s ∧ I s := by
  apply Triple.forEach_mem
  intro a ha
  have h := (local_of_keeps (hkeeps a ha) hF).and (hI a ha)
  exact h.consequence (fun s hs => hs) (fun _ s hs => hs) (fun _ s hs => hs) fun _ _ => trivial

/-- A loop that replaces one file after the other takes each from its old state to its new one;
where it stops, a file is in one of the two. -/
theorem forEach_at (hnodup : (l.map key).Nodup) (hI : ∀ a ∈ l, Spec I (f a) (fun _ => I) fun _ => I)
    (hkeeps : ∀ a ∈ l, key a ≠ p → Within (Keeps p) (f a)) {a : α} (ha : a ∈ l) (hkey : key a = p)
    (hstep : Spec (fun s => At p A s ∧ I s) (f a) (fun _ s => At p N s ∧ Done p s)
      fun _ => At p fun x => A x ∨ N x) :
    Spec (fun s => At p A s ∧ I s) (forEach f l) (fun _ s => (At p N s ∧ Done p s) ∧ I s)
      fun _ s => At p (fun x => A x ∨ N x) s ∧ I s := by
  induction l with
  | nil => exact absurd ha List.not_mem_nil
  | cons b l ih =>
    rw [List.map_cons, List.nodup_cons] at hnodup
    have hIl : ∀ c ∈ l, Spec I (f c) (fun _ => I) fun _ => I :=
      fun c hc => hI c (List.mem_cons_of_mem _ hc)
    have hIb := hI b (List.mem_cons_self ..)
    by_cases hb : key b = p
    · -- the file itself: the rest of the loop leaves it alone
      have hab : a = b := by
        rcases List.mem_cons.mp ha with h | h
        · exact h
        · exact absurd (hb.trans hkey.symm ▸ List.mem_map_of_mem h) hnodup.1
      subst hab
      have hone : Spec (fun s => At p A s ∧ I s) (f a) (fun _ s => (At p N s ∧ Done p s) ∧ I s)
          fun _ s => At p (fun x => A x ∨ N x) s ∧ I s :=
        (hstep.and hIb).consequence (fun s hs => ⟨hs, hs.2⟩) (fun _ s hs => hs) (fun _ s hs => hs)
          fun _ _ => trivial
      apply Triple.bind hone
      intro _
      have hothers : ∀ c ∈ l, Within (Keeps p) (f c) := by
        intro c hc
        apply hkeeps c (List.mem_cons_of_mem _ hc)
        intro hc'
        exact hnodup.1 (hb.trans hc'.symm ▸ List.mem_map_of_mem hc)
      have hlocal (s t : Sys) (hst : Keeps p s t) (hs : At p N s ∧ Done p s) :
          At p N t ∧ Done p t := ⟨hst.at hs.1, hst.done hs.2⟩
      apply (forEach_at_others hIl hothers hlocal).consequence
      · exact fun s hs => hs
      · exact fun _ s hs => hs
      · exact fun _ s hs => ⟨hs.1.1.mono fun x hx => .inr hx, hs.2⟩
      · exact fun s hs => hs
    · have hne : a ≠ b := fun h => hb (h ▸ hkey)
      have ha' : a ∈ l := (List.mem_cons.mp ha).resolve_left hne
      have hone : Spec (fun s => At p A s ∧ I s) (f b) (fun _ s => At p A s ∧ I s)
          fun _ s => At p (fun x => A x ∨ N x) s ∧ I s :=
        ((at_of_keeps (hkeeps b (List.mem_cons_self ..) hb)).and hIb).consequence (fun s hs => hs)
          (fun _ s hs => hs) (fun _ s hs => ⟨hs.1.mono fun x hx => .inl hx, hs.2⟩)
          fun _ _ => trivial
      apply Triple.bind hone
      intro _
      exact ih hnodup.2 hIl (fun c hc => hkeeps c (List.mem_cons_of_mem _ hc)) ha'

end Loops

section Apply

variable {process : Process} {dest : Text} {base : Text → Option Entry} {edits : List Edit}
  {edit : Edit}

/-- What the transaction asks of the files it is to edit. -/
structure Editable (process : Process) (dest : Text) (edits : List Edit) : Prop where
  nodup : (edits.map (·.path)).Nodup
  foreign : ∀ e ∈ edits, ¬ Scratch process dest e.path

theorem Editable.notTemp (h : Editable process dest edits) {e : Edit} (he : e ∈ edits) :
    ¬ IsTemp process e.path :=
  fun htemp => h.foreign e he (.inl htemp)

theorem applyEdit_clean (h : Editable process dest edits) (he : edit ∈ edits) :
    Spec (Clean process dest (Planned edits) base none) (applyEdit process edit)
      (fun _ => Clean process dest (Planned edits) base none)
      fun _ => Clean process dest (Planned edits) base none := by
  apply Triple.bind (looks_spec stable_clean)
  intro _
  exact writeAtomicChecked_clean
    ⟨h.notTemp he, .inr ⟨_, _, rfl, edit, he, rfl, .inl rfl⟩⟩

theorem applyEdit_keeps {p : Text} (hp : ¬ IsTemp process p) (hne : edit.path ≠ p) :
    Within (Keeps p) (applyEdit process edit) := by
  apply Within.andThen inferInstance
  intro _
  exact writeAtomicChecked_keeps hp hne.symm

theorem applyEdit_at (h : Editable process dest edits) (he : edit ∈ edits) :
    Spec (fun s => At edit.path (· = originalEntry edit) s ∧
        Clean process dest (Planned edits) base none s)
      (applyEdit process edit)
      (fun _ s => At edit.path (· = editedEntry edit) s ∧ Done edit.path s)
      fun _ => At edit.path fun x => x = originalEntry edit ∨ x = editedEntry edit := by
  have hstable : Stable fun s => At edit.path (· = originalEntry edit) s ∧
      Clean process dest (Planned edits) base none s :=
    (stable_at edit.path _).and stable_clean
  apply Triple.bind ((looks_spec hstable).consequence (fun s hs => hs) (fun _ s hs => hs)
    (fun _ s hs => hs.1.mono fun x hx => .inl hx) fun s hs => hs)
  intro _
  exact (writeAtomicChecked_at (fun q hq => .inl hq) (h.notTemp he)).strengthen
    fun s hs => ⟨hs.1, hs.2.tame⟩

theorem apply_clean (h : Editable process dest edits) :
    Spec (Clean process dest (Planned edits) base none) (apply process edits)
      (fun _ => Clean process dest (Planned edits) base none)
      fun _ => Clean process dest (Planned edits) base none := by
  apply Triple.bind (looks_spec stable_clean)
  intro _
  apply Triple.bind (Triple.forEach_mem fun e he => applyEdit_clean h he)
  intro _
  exact Triple.pure _ fun s hs => hs

theorem apply_at (h : Editable process dest edits) (he : edit ∈ edits) :
    Spec (fun s => At edit.path (· = originalEntry edit) s ∧
        Clean process dest (Planned edits) base none s)
      (apply process edits)
      (fun _ s => (At edit.path (· = editedEntry edit) s ∧ Done edit.path s) ∧
        Clean process dest (Planned edits) base none s)
      fun _ s => At edit.path (fun x => x = originalEntry edit ∨ x = editedEntry edit) s ∧
        Clean process dest (Planned edits) base none s := by
  have hstable : Stable fun s => At edit.path (· = originalEntry edit) s ∧
      Clean process dest (Planned edits) base none s :=
    (stable_at edit.path _).and stable_clean
  apply Triple.bind ((looks_spec hstable).consequence (fun s hs => hs) (fun _ s hs => hs)
    (fun _ s hs => ⟨hs.1.mono fun x hx => .inl hx, hs.2⟩) fun s hs => hs)
  intro _
  apply Triple.bind (forEach_at h.nodup (fun e he => applyEdit_clean h he)
    (fun e _ hne => applyEdit_keeps (h.notTemp he) hne) he rfl (applyEdit_at h he))
  intro _
  exact Triple.pure _ fun s hs => hs

end Apply

section Restore

variable {process : Process} {dest : Text} {base : Text → Option Entry} {edits : List Edit}
  {edit : Edit} {A : Entry → Prop}

theorem captureMetadata_at {p : Text} :
    Spec (At p A) (captureMetadata p) (fun m => At p fun x => A x ∧ ∃ c, x = .file c m)
      fun _ => At p A := by
  apply Triple.bind (query_spec ((stable_at p A).advance false))
  intro entry
  cases entry with
  | file c m =>
    apply Triple.pure
    rintro s ⟨hs, hentry⟩
    rcases hs with hs | ⟨x, hx, hs⟩
    · exact .inl hs
    · rw [hentry] at hs
      obtain rfl := Option.some.inj hs
      exact .inr ⟨_, ⟨hx, c, rfl⟩, hentry⟩
  | symlink through => exact Triple.fail _ fun s hs => hs.1
  | other => exact Triple.fail _ fun s hs => hs.1

theorem read_at {p : Text} :
    Spec (At p A) (read false p) (fun c => At p fun x => A x ∧ x.read? = some c)
      fun _ => At p A := by
  apply (query_spec ((stable_at p A).advance false)).consequence (fun s hs => hs)
  · rintro c s ⟨hs, hread⟩
    rcases hs with hs | ⟨x, hx, hs⟩
    · exact .inl hs
    · rw [hs] at hread
      exact .inr ⟨x, ⟨hx, hread⟩, hs⟩
  · exact fun _ s hs => hs
  · exact fun s hs => hs

instance classify_looks {l : List ((ManifestFile × Content) × Edit)} :
    Within Looking (classify l) := by
  induction l with
  | nil => exact Within.pure _
  | cons y l ih =>
    obtain ⟨⟨file, original⟩, e⟩ := y
    rw [classify]
    infer_instance

theorem classify_at {l : List ((ManifestFile × Content) × Edit)} (he : edit ∈ l.map Prod.snd) :
    Spec (At edit.path A) (classify l)
      (fun found s => found.2 = none → At edit.path (· = originalEntry edit) s ∨
        (At edit.path A s ∧ ∃ x ∈ found.1, x.edit = edit))
      fun _ _ => True := by
  induction l with
  | nil => exact absurd he List.not_mem_nil
  | cons y l ih =>
    obtain ⟨⟨file, original⟩, e⟩ := y
    rw [classify]
    by_cases heq : edit = e
    · subst heq
      apply Triple.bind (captureMetadata_at.consequence (fun s hs => hs) (fun _ s hs => hs)
        (fun _ s _ => trivial) fun s hs => hs)
      intro metadata
      apply Triple.bind (read_at.consequence (fun s hs => hs) (fun _ s hs => hs)
        (fun _ s _ => trivial) fun s hs => hs)
      intro current
      -- the files behind this one are looked at only
      apply Triple.bind ((at_of_keeps inferInstance).consequence (fun s hs => hs)
        (fun _ s hs => hs) (fun _ s _ => trivial) fun s hs => hs)
      rintro ⟨pending, conflict⟩
      dsimp only
      apply Triple.ite
      · rintro ⟨rfl, rfl⟩
        apply Triple.pure
        intro s hs _
        left
        apply hs.mono
        rintro x ⟨⟨-, c, rfl⟩, hread⟩
        rw [originalEntry, ← Option.some.inj hread]
      intro _
      apply Triple.ite
      · intro _
        apply Triple.pure
        intro s hs _
        right
        exact ⟨hs.mono fun x hx => hx.1.1, _, List.mem_cons_self .., rfl⟩
      · intro _
        apply Triple.pure
        intro s hs hnone
        cases hnone
    · have he' : edit ∈ l.map Prod.snd :=
        (List.mem_cons.mp he).resolve_left heq
      apply Triple.bind ((at_of_keeps inferInstance).consequence (fun s hs => hs)
        (fun _ s hs => hs) (fun _ s _ => trivial) fun s hs => hs)
      intro metadata
      apply Triple.bind ((at_of_keeps inferInstance).consequence (fun s hs => hs)
        (fun _ s hs => hs) (fun _ s _ => trivial) fun s hs => hs)
      intro current
      apply Triple.bind (ih he')
      rintro ⟨pending, conflict⟩
      dsimp only
      apply Triple.ite
      · exact fun _ => Triple.pure _ fun s hs => hs
      intro _
      apply Triple.ite
      · intro _
        apply Triple.pure
        intro s hs hnone
        rcases hs hnone with h | ⟨h, x, hx, hxe⟩
        · exact .inl h
        · exact .inr ⟨h, x, List.mem_cons_of_mem _ hx, hxe⟩
      · intro _
        apply Triple.pure
        intro s hs hnone
        cases hnone

theorem classify_pending {l : List ((ManifestFile × Content) × Edit)} {s t : Sys}
    {pending : List Pending} {conflict : Option HostNetError}
    (h : classify l s = (.ok (pending, conflict), t)) :
    (pending.map (·.edit)).Sublist (l.map Prod.snd) ∧
      ∀ x ∈ pending, ∃ file, ((file, x.original), x.edit) ∈ l ∧ x.path = file.original := by
  induction l generalizing s t pending conflict with
  | nil =>
    cases h
    exact ⟨List.Sublist.refl _, fun x hx => absurd hx List.not_mem_nil⟩
  | cons y l ih =>
    obtain ⟨⟨file, original⟩, e⟩ := y
    obtain ⟨metadata, s₁, -, h⟩ := Prog.bind_eq_ok h
    obtain ⟨current, s₂, -, h⟩ := Prog.bind_eq_ok h
    obtain ⟨⟨pending', conflict'⟩, s₃, hrest, h⟩ := Prog.bind_eq_ok h
    obtain ⟨hsub, hmem⟩ := ih hrest
    have hmem' : ∀ x ∈ pending', ∃ file', ((file', x.original), x.edit) ∈
        ((file, original), e) :: l ∧ x.path = file'.original := by
      intro x hx
      obtain ⟨file', hfile', hpath⟩ := hmem x hx
      exact ⟨file', List.mem_cons_of_mem _ hfile', hpath⟩
    dsimp only at h
    split at h
    · cases h
      exact ⟨hsub.cons _, hmem'⟩
    · split at h
      · cases h
        refine ⟨hsub.cons_cons _, ?_⟩
        intro x hx
        rcases List.mem_cons.mp hx with rfl | hx
        · exact ⟨file, List.mem_cons_self .., rfl⟩
        · exact hmem' x hx
      · cases h
        exact ⟨hsub.cons _, hmem'⟩

theorem zip_edits {restoreFiles : List (ManifestFile × Content)}
    (hcheck : ¬ (restoreFiles.length ≠ edits.length ∨
      (restoreFiles.zip edits).any (fun x => !isBackupOf x.1 x.2) = true)) :
    (restoreFiles.zip edits).map Prod.snd = edits ∧
      ∀ file original e, ((file, original), e) ∈ restoreFiles.zip edits →
        file.original = e.path ∧ original = .utf8 e.originalContent := by
  rw [not_or, not_not] at hcheck
  obtain ⟨hlen, hall⟩ := hcheck
  constructor
  · exact List.map_snd_zip (by omega)
  · intro file original e hmem
    rw [Bool.not_eq_true, List.any_eq_false] at hall
    have h := hall _ hmem
    simp only [isBackupOf, Bool.not_eq_true, Bool.not_eq_false', decide_eq_true_eq] at h
    exact ⟨h.1, h.2.2⟩

/-- A file to be put back, as its plan has it. -/
structure Pending.Fits (edits : List Edit) (x : Pending) : Prop where
  mem : x.edit ∈ edits
  path : x.path = x.edit.path
  original : x.original = .utf8 x.edit.originalContent

theorem putBack_clean (h : Editable process dest edits) {x : Pending} (hx : x.Fits edits) :
    Spec (Clean process dest (Planned edits) base none) (putBack process x)
      (fun _ => Clean process dest (Planned edits) base none)
      fun _ => Clean process dest (Planned edits) base none := by
  apply writeAtomicChecked_clean
  rw [hx.path]
  exact ⟨h.notTemp hx.mem, .inr ⟨_, _, rfl, x.edit, hx.mem, rfl, .inr rfl⟩⟩

theorem putBack_at (h : Editable process dest edits) {x : Pending} (hx : x.Fits edits) :
    Spec (fun s => At x.edit.path A s ∧ Clean process dest (Planned edits) base none s)
      (putBack process x)
      (fun _ s => At x.edit.path (· = originalEntry x.edit) s ∧ Done x.edit.path s)
      fun _ => At x.edit.path fun y => A y ∨ y = originalEntry x.edit := by
  rw [putBack, hx.path, hx.original]
  exact (writeAtomicChecked_at (fun q hq => .inl hq) (h.notTemp hx.mem)).strengthen
    fun s hs => ⟨hs.1, hs.2.tame⟩

theorem classify_fits (h : Editable process dest edits)
    {restoreFiles : List (ManifestFile × Content)}
    (hcheck : ¬ (restoreFiles.length ≠ edits.length ∨
      (restoreFiles.zip edits).any (fun x => !isBackupOf x.1 x.2) = true))
    {P : Sys → Prop} (hP : Stable P) :
    Spec P (classify (restoreFiles.zip edits))
      (fun found s => P s ∧ (∀ x ∈ found.1, x.Fits edits) ∧
        (found.1.map (·.edit.path)).Nodup) fun _ => P := by
  obtain ⟨hzip, hbackup⟩ := zip_edits hcheck
  have hlooks : Within Looking (classify (restoreFiles.zip edits)) := inferInstance
  apply (hlooks.triple_ok (fun s t hst hs => hP.looking hst hs) ?_).consequence (fun s hs => hs)
    (fun _ s hs => hs) (fun _ s hs => hs) fun _ _ => trivial
  rintro s ⟨pending, conflict⟩ t - hrun
  obtain ⟨hsub, hmem⟩ := classify_pending hrun
  rw [hzip] at hsub
  constructor
  · intro x hx
    obtain ⟨file, hfile, hpath⟩ := hmem x hx
    obtain ⟨horiginal, hbytes⟩ := hbackup _ _ _ hfile
    exact ⟨hsub.subset (List.mem_map_of_mem hx), hpath.trans horiginal, hbytes⟩
  · have hpaths := (hsub.map (·.path)).nodup h.nodup
    rw [List.map_map] at hpaths
    exact hpaths

theorem restoreIfUnchanged_clean (h : Editable process dest edits) (manifest : Manifest) :
    Spec (Clean process dest (Planned edits) base none)
      (restoreIfUnchanged process manifest edits)
      (fun _ => Clean process dest (Planned edits) base none)
      fun _ => Clean process dest (Planned edits) base none := by
  apply Triple.bind (looks_spec stable_clean)
  intro restoreFiles
  apply Triple.ite
  · exact fun _ => Triple.fail _ fun s hs => hs
  intro hcheck
  apply Triple.bind (classify_fits h hcheck stable_clean)
  rintro ⟨pending, conflict⟩ s ⟨hs, hfits, -⟩
  apply Triple.bind (Triple.forEach_mem fun x hx => putBack_clean h (hfits x hx)) ?_ s hs
  intro _
  cases conflict with
  | none => exact Triple.pure _ fun s hs => hs
  | some error => exact Triple.fail _ fun s hs => hs

theorem restoreIfUnchanged_at (h : Editable process dest edits) (he : edit ∈ edits)
    (manifest : Manifest) :
    Spec (fun s => At edit.path A s ∧ Clean process dest (Planned edits) base none s)
      (restoreIfUnchanged process manifest edits)
      (fun _ => At edit.path (· = originalEntry edit)) fun _ _ => True := by
  have hstable : Stable fun s => At edit.path A s ∧
      Clean process dest (Planned edits) base none s := (stable_at edit.path A).and stable_clean
  apply Triple.bind ((looks_spec hstable).consequence (fun s hs => hs) (fun _ s hs => hs)
    (fun _ s _ => trivial) fun s hs => hs)
  intro restoreFiles
  apply Triple.ite
  · exact fun _ => Triple.fail _ fun s _ => trivial
  intro hcheck
  have hmem : edit ∈ (restoreFiles.zip edits).map Prod.snd := by
    rw [(zip_edits hcheck).1]
    exact he
  have hfound : Spec (fun s => At edit.path A s ∧ Clean process dest (Planned edits) base none s)
      (classify (restoreFiles.zip edits))
      (fun found s => (found.2 = none → At edit.path (· = originalEntry edit) s ∨
          (At edit.path A s ∧ ∃ x ∈ found.1, x.edit = edit)) ∧
        Clean process dest (Planned edits) base none s ∧ (∀ x ∈ found.1, x.Fits edits) ∧
          (found.1.map (·.edit.path)).Nodup) fun _ _ => True :=
    ((classify_at hmem).and (classify_fits h hcheck stable_clean)).consequence (fun s hs => hs)
      (fun _ s hs => hs) (fun _ s _ => trivial) fun _ _ => trivial
  apply Triple.bind hfound
  rintro ⟨pending, conflict⟩ s ⟨hat, hs, hfits, hnodup⟩
  have hclean : ∀ x ∈ pending, Spec (Clean process dest (Planned edits) base none)
      (putBack process x) (fun _ => Clean process dest (Planned edits) base none)
      fun _ => Clean process dest (Planned edits) base none :=
    fun x hx => putBack_clean h (hfits x hx)
  have hkeeps : ∀ x ∈ pending, x.edit.path ≠ edit.path →
      Within (Keeps edit.path) (putBack process x) := by
    intro x hx hne
    apply writeAtomicChecked_keeps (h.notTemp he)
    rw [(hfits x hx).path]
    exact hne.symm
  cases conflict with
  | some error =>
    apply Triple.bind (Triple.trivial _) ?_ s trivial
    intro _
    exact Triple.fail _ fun s _ => trivial
  | none =>
    have hback : Spec (fun s => (At edit.path (· = originalEntry edit) s ∨
          (At edit.path A s ∧ ∃ x ∈ pending, x.edit = edit)) ∧
          Clean process dest (Planned edits) base none s) (forEach (putBack process) pending)
        (fun _ => At edit.path (· = originalEntry edit)) fun _ _ => True := by
      by_cases hpending : ∃ x ∈ pending, x.edit = edit
      · obtain ⟨x, hx, rfl⟩ := hpending
        have hstep : Spec (fun s => At x.edit.path (fun y => A y ∨ y = originalEntry x.edit) s ∧
              Clean process dest (Planned edits) base none s) (putBack process x)
            (fun _ s => At x.edit.path (· = originalEntry x.edit) s ∧ Done x.edit.path s)
            fun _ => At x.edit.path fun y =>
              (A y ∨ y = originalEntry x.edit) ∨ y = originalEntry x.edit :=
          putBack_at h (hfits x hx)
        apply (forEach_at hnodup hclean hkeeps hx rfl hstep).consequence
        · intro s hs
          refine ⟨?_, hs.2⟩
          rcases hs.1 with hs | ⟨hs, -⟩
          · exact hs.mono fun y hy => .inr hy
          · exact hs.mono fun y hy => .inl hy
        · exact fun _ s hs => hs.1.1
        · exact fun _ s _ => trivial
        · exact fun s hs => hs
      · -- no other file has this path
        have hothers : ∀ x ∈ pending, Within (Keeps edit.path) (putBack process x) := by
          intro x hx
          apply hkeeps x hx
          intro hpath
          exact hpending ⟨x, hx, List.inj_on_of_nodup_map h.nodup (hfits x hx).mem he hpath⟩
        apply (forEach_at_others hclean hothers fun s t hst hs => hst.at hs).consequence
        · exact fun s hs => ⟨hs.1.resolve_right fun hs => hpending hs.2, hs.2⟩
        · exact fun _ s hs => hs.1
        · exact fun _ s _ => trivial
        · exact fun s hs => hs
    apply Triple.bind hback ?_ s ⟨hat rfl, hs⟩
    intro _
    exact Triple.pure _ fun s hs => hs

end Restore

section Transaction

variable {outside : Outside} {fileSet : FileSet} {dest : Text} {base : Text → Option Entry}
  {edits : List Edit} {edit : Edit}

def HostNetError.isRecoveryFailed : HostNetError → Bool
  | .recoveryFailed _ _ => true
  | _ => false

theorem restoreAfterFailure_at (h : Editable outside.process dest edits) (he : edit ∈ edits)
    {A : Entry → Prop} (manifest : Manifest) (operation : HostNetError) :
    Spec (fun s => At edit.path A s ∧ Clean outside.process dest (Planned edits) base none s)
      (restoreAfterFailure outside manifest edits operation) (fun _ _ => False)
      fun error s => error.isRecoveryFailed = false → At edit.path (· = originalEntry edit) s := by
  apply Triple.bind (restoreIfUnchanged_at h he manifest).attempt
  intro result
  cases result with
  | ok u => exact Triple.fail _ fun s hs _ => hs
  | error recovery =>
    apply Triple.fail
    intro s _ hrecovery
    cases hrecovery

theorem restoreAfterFailure_clean (h : Editable outside.process dest edits) (manifest : Manifest)
    (operation : HostNetError) :
    Spec (Clean outside.process dest (Planned edits) base none)
      (restoreAfterFailure outside manifest edits operation)
      (fun _ => Clean outside.process dest (Planned edits) base none)
      fun _ => Clean outside.process dest (Planned edits) base none := by
  apply Triple.bind (restoreIfUnchanged_clean h manifest).attempt
  intro result
  cases result <;> exact Triple.fail _ fun s hs => hs

theorem executePlan_clean (h : Editable outside.process dest edits) :
    Spec (Clean outside.process dest (Planned edits) base none)
      (executePlan outside fileSet edits dest)
      (fun _ => Clean outside.process dest (Planned edits) base none)
      fun _ => Clean outside.process dest (Planned edits) base none := by
  apply Triple.bind (backup_clean fun e he => h.notTemp he)
  intro manifest
  apply Triple.bind (apply_clean h).attempt
  intro applied
  cases applied with
  | error operation => exact restoreAfterFailure_clean h manifest operation
  | ok edited =>
    apply Triple.bind (looks_spec stable_clean).attempt
    intro validated
    rcases validated with operation | (_ | _ | ⟨exit, stderr⟩)
    · exact restoreAfterFailure_clean h manifest operation
    · exact Triple.pure _ fun s hs => hs
    · exact Triple.pure _ fun s hs => hs
    · exact restoreAfterFailure_clean h manifest _

theorem executePlan_at (h : Editable outside.process dest edits) (he : edit ∈ edits) :
    Spec (fun s => At edit.path (· = originalEntry edit) s ∧
        Clean outside.process dest (Planned edits) base none s)
      (executePlan outside fileSet edits dest)
      (fun _ s => At edit.path (· = editedEntry edit) s ∧ Done edit.path s)
      fun error s => error.isRecoveryFailed = false → At edit.path (· = originalEntry edit) s := by
  have hbackup : Spec (fun s => At edit.path (· = originalEntry edit) s ∧
        Clean outside.process dest (Planned edits) base none s) (backup outside edits dest)
      (fun _ s => At edit.path (· = originalEntry edit) s ∧
        Clean outside.process dest (Planned edits) base none s)
      fun error s => error.isRecoveryFailed = false → At edit.path (· = originalEntry edit) s :=
    ((at_of_keeps (backup_keeps (h.foreign edit he) edits)).and
      (backup_clean fun e he => h.notTemp he)).consequence (fun s hs => hs) (fun _ s hs => hs)
      (fun _ s hs _ => hs.1) fun _ _ => trivial
  apply Triple.bind hbackup
  intro manifest
  have hfailure {A : Entry → Prop} (operation : HostNetError) :
      Spec (fun s => At edit.path A s ∧ Clean outside.process dest (Planned edits) base none s)
        (restoreAfterFailure outside manifest edits operation)
        (fun _ s => At edit.path (· = editedEntry edit) s ∧ Done edit.path s)
        fun error s => error.isRecoveryFailed = false → At edit.path (· = originalEntry edit) s :=
    (restoreAfterFailure_at h he manifest operation).consequence (fun s hs => hs)
      (fun _ s hs => hs.elim) (fun _ s hs => hs) fun _ _ => trivial
  apply Triple.bind (apply_at h he).attempt
  intro applied
  cases applied with
  | error operation => exact hfailure operation
  | ok edited =>
    -- the dry run changes nothing, so its outcome decides alone
    have hlocal (s t : Sys) (hst : Looking s t)
        (hs : (At edit.path (· = editedEntry edit) s ∧ Done edit.path s) ∧
          Clean outside.process dest (Planned edits) base none s) :
        (At edit.path (· = editedEntry edit) t ∧ Done edit.path t) ∧
          Clean outside.process dest (Planned edits) base none t :=
      ⟨⟨(hst.keeps edit.path).at hs.1.1, (hst.keeps edit.path).done hs.1.2⟩,
        stable_clean.looking hst hs.2⟩
    have hvalidate : Within Looking (validate outside fileSet) := inferInstance
    apply Triple.bind ((hvalidate.triple hlocal).consequence (fun s hs => hs) (fun _ s hs => hs)
      (fun _ s hs => hs) fun _ _ => trivial).attempt
    intro validated
    rcases validated with operation | (_ | _ | ⟨exit, stderr⟩)
    · exact (hfailure operation).strengthen fun s hs => ⟨hs.1.1, hs.2⟩
    · exact Triple.pure _ fun s hs => hs.1
    · exact Triple.pure _ fun s hs => hs.1
    · exact (hfailure _).strengthen fun s hs => ⟨hs.1.1, hs.2⟩

end Transaction

section Planning

variable {outside : Outside} {selected files : List Text} {p : Text}

theorem planFile_some {M : Type} {env : Env M} {path content : Text} {managed : List Text}
    {parsed : ParsedFile} {e : FileEdit M}
    (h : planFile env path managed content parsed = .ok (some e)) :
    e.path = path ∧ e.originalContent = content ∧ env.captureMetadata path = .ok e.metadata := by
  simp only [planFile, Bind.bind, Except.bind] at h
  split at h
  · cases h
  split at h
  · cases h
  split at h
  · cases h
  rename_i metadata hmetadata
  cases h
  exact ⟨rfl, rfl, hmetadata⟩

theorem planned_edits {M : Type} {env : Env M} {managed : List Text} {parsedFiles : List ReadFile}
    {edits : List (Option (FileEdit M))}
    (hfiles : List.Forall₂ (fun path f => readFile env selected path = .ok f) files parsedFiles)
    (hedits : List.Forall₂ (fun f e => planFile env f.path managed f.content f.parsed = .ok e)
      parsedFiles edits) :
    (edits.reduceOption.map (·.path)).Sublist files ∧ ∀ e ∈ edits.reduceOption,
      env.readToString e.path = some e.originalContent ∧
        env.captureMetadata e.path = .ok e.metadata := by
  induction hfiles generalizing edits with
  | nil =>
    cases hedits
    exact ⟨List.Sublist.refl _, fun e he => absurd he List.not_mem_nil⟩
  | cons hread _ ih =>
    cases hedits with
    | @cons _ o _ rest hplan hrest =>
      obtain ⟨hsub, hmem⟩ := ih hrest
      cases o with
      | none =>
        rw [List.reduceOption_cons_of_none]
        exact ⟨hsub.cons _, hmem⟩
      | some e =>
        obtain ⟨hpath, hcontent, hmetadata⟩ := planFile_some hplan
        obtain ⟨hfpath, hcontents, -⟩ := readFile_ok_iff.mp hread
        rw [hfpath] at hpath hmetadata
        rw [List.reduceOption_cons_of_some, List.map_cons, hpath]
        refine ⟨hsub.cons_cons _, ?_⟩
        intro e' he'
        rcases List.mem_cons.mp he' with rfl | he'
        · rw [hpath, hcontent]
          exact ⟨hcontents, hmetadata⟩
        · exact hmem e' he'

theorem observe_spec {α : Type} {look : Text → Op α} [∀ path, Within Looking (look path)]
    {P : Sys → Prop} {F : α → Sys → Prop} (hP : Stable P) (hF : ∀ a, Stable (F a))
    (hlook : Spec P (look p) (fun a s => P s ∧ F a s) fun _ => P) (paths : List Text) :
    Spec P (observe look paths)
      (fun seen s => P s ∧ ∀ a, seen.lookup p = some (.ok a) → F a s) fun _ => P := by
  induction paths with
  | nil => exact Triple.pure _ fun s hs => ⟨hs, fun a ha => by cases ha⟩
  | cons path paths ih =>
    by_cases hpath : p = path
    · subst hpath
      apply Triple.bind hlook.attempt
      intro seen
      cases seen with
      | error e =>
        apply Triple.bind (looks_spec hP)
        intro rest
        apply Triple.pure
        intro s hs
        refine ⟨hs, fun a ha => ?_⟩
        rw [List.lookup_cons_self] at ha
        cases ha
      | ok b =>
        apply Triple.bind ((looks_spec (hP.and (hF b))).consequence (fun s hs => hs)
          (fun _ s hs => hs) (fun _ s hs => hs.1) fun s hs => hs)
        intro rest
        apply Triple.pure
        intro s hs
        refine ⟨hs.1, fun a ha => ?_⟩
        rw [List.lookup_cons_self] at ha
        cases ha
        exact hs.2
    · apply Triple.bind (looks_spec hP)
      intro seen
      apply Triple.bind ih
      intro rest
      apply Triple.pure
      intro s hs
      refine ⟨hs.1, fun a ha => ?_⟩
      rw [List.lookup_cons, beq_false_of_ne hpath] at ha
      exact hs.2 a ha

/-- The file at `p` is as it was at the start, unless the outside process changed it. -/
def Stays (p : Text) (v : Option Entry) (s : Sys) : Prop :=
  (s.author p).isForeign = true ∨ s.files p = v

theorem stable_stays (p : Text) (v : Option Entry) : Stable (Stays p v) := by
  intro s t hst hs
  rcases hst.keeps p with ⟨hfiles, hauthor⟩ | hforeign
  · rcases hs with hs | hs
    · exact .inl (hauthor ▸ hs)
    · exact .inr (hfiles.trans hs)
  · left
    rw [hforeign, Author.isForeign_meddled]

theorem readToString_stays {v : Option Entry} :
    Spec (Stays p v) (readToString p)
      (fun text s => Stays p v s ∧ At p (fun x => v = some x ∧ x.read? = some (.utf8 text)) s)
      fun _ => Stays p v := by
  apply (query_spec ((stable_stays p v).advance false)).consequence (fun s hs => hs)
  · rintro text s ⟨hs, hask⟩
    refine ⟨hs, ?_⟩
    obtain ⟨c, hc, htext⟩ := Option.bind_eq_some_iff.mp hask
    obtain ⟨x, hx, hread⟩ := Option.bind_eq_some_iff.mp hc
    rcases hs with hs | hs
    · exact .inl hs
    · rw [Content.text?_eq_some htext] at hread
      exact .inr ⟨x, ⟨hs.symm.trans hx, hread⟩, hx⟩
  · exact fun _ s hs => hs
  · exact fun s hs => hs

theorem captureMetadata_stays {v : Option Entry} :
    Spec (Stays p v) (captureMetadata p)
      (fun m s => Stays p v s ∧ At p (fun x => v = some x ∧ ∃ c, x = .file c m) s)
      fun _ => Stays p v := by
  apply Triple.bind (query_spec ((stable_stays p v).advance false))
  intro entry
  cases entry with
  | file c m =>
    apply Triple.pure
    rintro s ⟨hs, hentry⟩
    refine ⟨hs, ?_⟩
    rcases hs with hs | hs
    · exact .inl hs
    · exact .inr ⟨_, ⟨hs.symm.trans hentry, c, rfl⟩, hentry⟩
  | symlink through => exact Triple.fail _ fun s hs => hs.1
  | other => exact Triple.fail _ fun s hs => hs.1

theorem seenAs_ok {α : Type} {seen : List (Text × Except HostNetError α)} {a : α}
    (h : seenAs seen p = .ok a) : seen.lookup p = some (.ok a) := by
  unfold seenAs at h
  cases hl : seen.lookup p with
  | none =>
    rw [hl] at h
    cases h
  | some r =>
    rw [hl] at h
    exact congrArg some h

theorem seenAs_text {α : Type} {seen : List (Text × Except HostNetError α)} {a : α}
    (h : (seenAs seen p).toOption = some a) : seen.lookup p = some (.ok a) := by
  apply seenAs_ok
  cases hs : seenAs seen p with
  | error e =>
    rw [hs] at h
    cases h
  | ok b =>
    rw [hs] at h
    exact congrArg Except.ok (Option.some.inj h)

theorem planFiles_at (v : Option Entry) :
    Spec (Stays p v) (planFiles outside selected files)
      (fun plan s => ∀ e ∈ plan.edits, e.path = p → At p (· = originalEntry e) s)
      fun _ => Stays p v := by
  apply Triple.bind (observe_spec (stable_stays p v) (fun text => stable_at p _)
    readToString_stays files)
  intro contents
  have hread : Stable fun s => ∀ text, contents.lookup p = some (.ok text) →
      At p (fun x => v = some x ∧ x.read? = some (.utf8 text)) s :=
    fun s t hst hs text htext => stable_at p _ s t hst (hs text htext)
  have hstable := (stable_stays p v).and hread
  have hlook : Spec (fun s => Stays p v s ∧ ∀ text, contents.lookup p = some (.ok text) →
        At p (fun x => v = some x ∧ x.read? = some (.utf8 text)) s) (captureMetadata p)
      (fun m s => (Stays p v s ∧ ∀ text, contents.lookup p = some (.ok text) →
        At p (fun x => v = some x ∧ x.read? = some (.utf8 text)) s) ∧
        At p (fun x => v = some x ∧ ∃ c, x = .file c m) s)
      fun _ s => Stays p v s ∧ ∀ text, contents.lookup p = some (.ok text) →
        At p (fun x => v = some x ∧ x.read? = some (.utf8 text)) s :=
    (captureMetadata_stays.and (looks_spec hread)).consequence (fun s hs => hs)
      (fun _ s hs => ⟨⟨hs.1.1, hs.2⟩, hs.1.2⟩) (fun _ s hs => hs) fun _ _ => trivial
  apply Triple.bind ((observe_spec hstable (fun m => stable_at p _) hlook files).consequence
    (fun s hs => hs) (fun _ s hs => hs) (fun _ s hs => hs.1) fun s hs => hs)
  intro metadata
  dsimp only
  split
  · rename_i plan hplan
    apply Triple.pure
    rintro s ⟨⟨-, hcontents⟩, hmetadata⟩ e he rfl
    obtain ⟨parsedFiles, edits, hfiles, hedits, rfl⟩ := planUnmanage_ok_iff.mp hplan
    obtain ⟨htext, hmeta⟩ := (planned_edits hfiles hedits).2 e he
    have hc := hcontents e.originalContent (seenAs_text htext)
    have hm := hmetadata e.metadata (seenAs_ok hmeta)
    -- both were seen of one entry
    rcases hc with hc | ⟨x, ⟨hv, hx⟩, hfile⟩
    · exact .inl hc
    rcases hm with hm | ⟨y, ⟨hv', c, rfl⟩, -⟩
    · exact .inl hm
    rw [hv'] at hv
    obtain rfl := Option.some.inj hv
    obtain rfl := Option.some.inj hx
    exact .inr ⟨_, rfl, hfile⟩
  · exact Triple.fail _ fun s hs => hs.1.1

end Planning

section Execute

variable (outside : Outside) (fileSet : FileSet) (selected : List Text) (dest : Text)

def plannedEdits (s : Sys) : List Edit :=
  match planFiles outside selected fileSet.files s with
  | (.ok plan, _) => plan.edits
  | _ => []

/-- All or nothing, as far as the outside process leaves the files alone: behind a return every
planned file has been put at its edited state, behind an error it is as it was planned, and only
a later change by the outside process makes a difference. -/
structure AllOrNothing (process : Process) (edits : List Edit) (base : Text → Option Entry)
    (result : Outcome HostNetError UnmanageOutcome) (s : Sys) : Prop where
  edited : ∀ outcome, result = .ok outcome → ∀ e ∈ edits, Done e.path s ∧
    ((s.author e.path).isForeign = true ∨ s.files e.path = some (editedEntry e))
  restored : ∀ error, result = .err error → error.isRecoveryFailed = false → ∀ e ∈ edits,
    (s.author e.path).isForeign = true ∨ s.files e.path = some (originalEntry e)
  preserved : ∀ p, ∀ x ∈ s.overwritten p, Planned edits p x
  removed : ∀ p, IsTemp process p → p ∉ s.unremoved → ∀ c m, s.files p = some (.file c m) →
    base p = some (.file c m)

instance planFiles_looks {files : List Text} : Within Looking (planFiles outside selected files) := by
  apply Within.andThen inferInstance
  intro contents
  apply Within.andThen inferInstance
  intro metadata
  dsimp only
  split <;> infer_instance

theorem at_entry {p : Text} {x : Entry} {s : Sys} (h : At p (· = x) s) :
    (s.author p).isForeign = true ∨ s.files p = some x := by
  rcases h with h | ⟨y, rfl, h⟩
  · exact .inl h
  · exact .inr h

theorem Clean.allOrNothing {process : Process} {edits : List Edit} {base : Text → Option Entry}
    {result : Outcome HostNetError UnmanageOutcome} {s : Sys}
    (h : Clean process dest (Planned edits) base none s)
    (hok : ∀ outcome, result = .ok outcome → ∀ e ∈ edits,
      At e.path (· = editedEntry e) s ∧ Done e.path s)
    (herr : ∀ error, result = .err error → error.isRecoveryFailed = false → ∀ e ∈ edits,
      At e.path (· = originalEntry e) s) : AllOrNothing process edits base result s where
  edited outcome ho e he := ⟨(hok outcome ho e he).2, at_entry (hok outcome ho e he).1⟩
  restored error ho hr e he := at_entry (herr error ho hr e he)
  preserved := h.log
  removed p hp hr := h.temps p hp (by simp) hr

variable {outside fileSet selected dest}

theorem planFiles_paths {files : List Text} {plan : EditPlan FileMetadata} {s t : Sys}
    (h : planFiles outside selected files s = (.ok plan, t)) :
    (plan.edits.map (·.path)).Sublist files := by
  obtain ⟨contents, s₁, -, h⟩ := Prog.bind_eq_ok h
  obtain ⟨metadata, s₂, -, h⟩ := Prog.bind_eq_ok h
  dsimp only at h
  generalize hplan : planUnmanage _ selected files = planned at h
  cases planned with
  | error e => cases h
  | ok plan' =>
    cases h
    obtain ⟨parsedFiles, edits, hfiles, hedits, rfl⟩ := planUnmanage_ok_iff.mp hplan
    exact (planned_edits hfiles hedits).1

theorem executeUnmanage_of_plan {plan : EditPlan FileMetadata} {s t : Sys}
    (h : planFiles outside selected fileSet.files s = (.ok plan, t)) :
    executeUnmanage outside fileSet selected dest s =
      if plan.edits = [] then (.ok ⟨none, [], .clean⟩, t)
      else executePlan outside fileSet plan.edits dest t := by
  unfold executeUnmanage
  rw [Prog.bind_of_ok h]
  by_cases hempty : plan.edits = []
  · rw [if_pos hempty, if_pos hempty]
    rfl
  · rw [if_neg hempty, if_neg hempty]

theorem executePlan_all_or_nothing {edits : List Edit} {base : Text → Option Entry} {s : Sys}
    (h : Editable outside.process dest edits)
    (hclean : Clean outside.process dest (Planned edits) base none s)
    (hat : ∀ e ∈ edits, At e.path (· = originalEntry e) s) :
    AllOrNothing outside.process edits base (executePlan outside fileSet edits dest s).1
      (executePlan outside fileSet edits dest s).2 := by
  have hend : Outcome.Satisfies (fun _ => Clean outside.process dest (Planned edits) base none)
      (fun _ => Clean outside.process dest (Planned edits) base none) (fun _ => True)
      (executePlan outside fileSet edits dest s) := executePlan_clean h s hclean
  have hfate (e : Edit) (he : e ∈ edits) : Outcome.Satisfies
      (fun _ s => At e.path (· = editedEntry e) s ∧ Done e.path s)
      (fun error s => error.isRecoveryFailed = false → At e.path (· = originalEntry e) s)
      (fun _ => True) (executePlan outside fileSet edits dest s) :=
    executePlan_at h he s ⟨hat e he, hclean⟩
  have hlives : Lives (executePlan outside fileSet edits dest) := inferInstance
  rcases hrun : executePlan outside fileSet edits dest s with ⟨outcome | error | _, t⟩
  · rw [hrun] at hend
    apply Clean.allOrNothing dest hend
    · intro _ _ e he
      have hf := hfate e he
      rw [hrun] at hf
      exact hf
    · intro _ herr
      cases herr
  · rw [hrun] at hend
    apply Clean.allOrNothing dest hend
    · intro _ hok
      cases hok
    · intro error' herr hrecovery e he
      cases herr
      have hf := hfate e he
      rw [hrun] at hf
      exact hf hrecovery
  · exact absurd hrun (hlives.alive s t)

/-- Whatever an outside process does to the files in between, and wherever the run fails. -/
theorem executeUnmanage_all_or_nothing (files : Text → Option Entry) (sequence : ℕ)
    (schedule : List Turn) (hdistinct : fileSet.files.Nodup)
    (hfiles : ∀ p ∈ fileSet.files, ¬ Scratch outside.process dest p)
    (hschedule : ∀ turn ∈ schedule, ∀ f ∈ turn.foreign, ¬ Scratch outside.process dest f.path) :
    AllOrNothing outside.process
      (plannedEdits outside fileSet selected { files, sequence, schedule }) files
      (executeUnmanage outside fileSet selected dest { files, sequence, schedule }).1
      (executeUnmanage outside fileSet selected dest { files, sequence, schedule }).2 := by
  generalize hs₀ : ({ files, sequence, schedule } : Sys) = s₀
  have hstart (edits : List Edit) : Clean outside.process dest (Planned edits) files none s₀ := by
    subst hs₀
    exact ⟨hschedule, fun p _ => rfl, fun p x hx => absurd hx List.not_mem_nil,
      fun p _ _ _ c m h => h⟩
  have hlooks : Looking s₀ (planFiles outside selected fileSet.files s₀).2 := Within.rel s₀
  have hnone {result : Outcome HostNetError UnmanageOutcome} {t : Sys}
      (ht : Looking s₀ t) : AllOrNothing outside.process [] files result t :=
    (stable_clean.looking ht (hstart [])).allOrNothing dest
      (fun _ _ e he => absurd he List.not_mem_nil) fun _ _ _ e he => absurd he List.not_mem_nil
  unfold plannedEdits
  rcases hplan : planFiles outside selected fileSet.files s₀ with ⟨plan | error | _, s₁⟩ <;>
    rw [hplan] at hlooks
  · have hpaths := planFiles_paths hplan
    have hat (e : Edit) (he : e ∈ plan.edits) : At e.path (· = originalEntry e) s₁ := by
      have h : Outcome.Satisfies
          (fun plan s => ∀ e' ∈ plan.edits, e'.path = e.path → At e.path (· = originalEntry e') s)
          (fun _ => Stays e.path (s₀.files e.path)) (fun _ => True)
          (planFiles outside selected fileSet.files s₀) :=
        planFiles_at (s₀.files e.path) s₀ (.inr rfl)
      rw [hplan] at h
      exact h e he rfl
    rw [executeUnmanage_of_plan hplan]
    by_cases hempty : plan.edits = []
    · rw [if_pos hempty]
      dsimp only
      rw [hempty]
      exact hnone hlooks
    · rw [if_neg hempty]
      exact executePlan_all_or_nothing
        ⟨hpaths.nodup hdistinct,
          fun e he => hfiles e.path (hpaths.subset (List.mem_map_of_mem he))⟩
        (stable_clean.looking hlooks (hstart _)) hat
  · have hrun : executeUnmanage outside fileSet selected dest s₀ = (.err error, s₁) :=
      Prog.bind_of_err hplan
    rw [hrun]
    exact hnone hlooks
  · exact absurd hplan (planFiles_lives.alive s₀ s₁)

end Execute

section Samples

def sampleOutside : Outside :=
  { process := ⟨7, 0, 0⟩
    glob := fun _ => .error []
    toVecPretty := fun _ => []
    ifup := none }

def interfacesPath : Text := "/etc/network/interfaces".toList

def sampleSet : FileSet := ⟨interfacesPath, [interfacesPath]⟩

def sampleDest : Text := "/var/backup".toList

def sampleEdit : Edit :=
  { path := interfacesPath
    originalContent := "auto eth0\niface eth0 inet dhcp\n".toList
    content := "iface eth0 inet manual\n".toList
    metadata := ⟨0o644, 0, 0⟩ }

def sampleFiles (p : Text) : Option Entry :=
  if p = interfacesPath then some (originalEntry sampleEdit) else none

def foreignEntry : Entry := .file (.utf8 "iface eth1 inet dhcp\n".toList) ⟨0o644, 0, 0⟩

def sampleEdits (schedule : List Turn) : List Edit :=
  plannedEdits sampleOutside sampleSet ["eth0".toList] { files := sampleFiles, schedule }

def sampleRun (schedule : List Turn) : Outcome HostNetError UnmanageOutcome × Sys :=
  executeUnmanage sampleOutside sampleSet ["eth0".toList] sampleDest
    { files := sampleFiles, schedule }

/-- Nothing happens in the first `n` calls. -/
def quietFor (n : ℕ) (turns : List Turn) : List Turn := List.replicate n ({} : Turn) ++ turns

def replaceBy (entry : Entry) : Turn := { foreign := [.replace interfacesPath entry] }

def failingCall : Turn := { fault := some ⟨0, fun _ => true⟩ }

def lateEdit : List Turn := quietFor 41 [replaceBy foreignEntry]

def earlyEdit : List Turn := quietFor 3 [replaceBy foreignEntry]

def sameEdit : List Turn := quietFor 30 [replaceBy (originalEntry sampleEdit)]

def brokenWrite : List Turn := quietFor 33 [failingCall, failingCall]

def leftTemp : Text := "/etc/network/.interfaces.lkit-hostnet.7.2.tmp".toList

def returned : Outcome HostNetError UnmanageOutcome → Bool
  | .ok _ => true
  | _ => false

/-- An error other than one of the recovery. -/
def failed : Outcome HostNetError UnmanageOutcome → Bool
  | .err error => !error.isRecoveryFailed
  | _ => false

theorem interfacesPath_not_scratch : ¬ Scratch sampleOutside.process sampleDest interfacesPath := by
  have hname : fileName interfacesPath = some "interfaces".toList := by decide +kernel
  have hparent : parent sampleDest = some "/var".toList := by decide +kernel
  rintro (⟨name, h, -, hsuffix⟩ | h | h | ⟨dir, hdir, h⟩)
  · rw [hname] at h
    obtain rfl := Option.some.inj h
    exact absurd hsuffix (by decide +kernel)
  · exact absurd h (by decide +kernel)
  · exact absurd h (by decide +kernel)
  · rw [hparent] at hdir
    obtain rfl := Option.some.inj hdir
    exact absurd h (by decide +kernel)

/-- The outside process replaces the file behind the rename; the edit was made, and its content
is the one that stays. -/
theorem lateEdit_all_or_nothing : sampleEdits lateEdit = [sampleEdit] ∧
    AllOrNothing sampleOutside.process (sampleEdits lateEdit) sampleFiles (sampleRun lateEdit).1
      (sampleRun lateEdit).2 := by
  refine ⟨by decide +kernel, executeUnmanage_all_or_nothing sampleFiles 0 lateEdit
    (by decide +kernel) ?_ ?_⟩
  · intro p hp
    rw [sampleSet, List.mem_singleton] at hp
    rw [hp]
    exact interfacesPath_not_scratch
  · intro turn hturn f hf
    rcases List.mem_append.mp hturn with h | h
    · rw [List.eq_of_mem_replicate h] at hf
      exact absurd hf List.not_mem_nil
    · rw [List.mem_singleton.mp h] at hf
      rw [List.mem_singleton.mp hf]
      exact interfacesPath_not_scratch

/-- A change behind the rename stands beside a success, a change in front of the backup beside an
error; an entry of the outside process that looks like the original is overwritten; and a
temporary file that cannot be removed stays. -/
theorem disturbed_runs :
    (sampleEdits lateEdit = [sampleEdit] ∧ returned (sampleRun lateEdit).1 = true ∧
      (sampleRun lateEdit).2.files sampleEdit.path ≠ some (editedEntry sampleEdit)) ∧
    (sampleEdits earlyEdit = [sampleEdit] ∧ failed (sampleRun earlyEdit).1 = true ∧
      (sampleRun earlyEdit).2.files sampleEdit.path ≠ some (originalEntry sampleEdit)) ∧
    (sampleRun sameEdit).2.overwritten sampleEdit.path = [originalEntry sampleEdit] ∧
    (sampleFiles leftTemp = none ∧ (sampleRun brokenWrite).2.files leftTemp ≠ none) := by
  refine ⟨⟨?_, ?_, ?_⟩, ⟨?_, ?_, ?_⟩, ?_, ?_, ?_⟩ <;> decide +kernel

end Samples

end LandscapeKit.Hostnet
