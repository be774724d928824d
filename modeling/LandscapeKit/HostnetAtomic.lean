import LandscapeKit.HostnetPlan
import LandscapeKit.HostnetTurns

/-!
`execute_unmanage` with an outside process at work. Each file is followed by itself: whoever
changed it last was the outside process, or it is in one of the states this run knows. The
outside process may do what it likes to any file that is not the run's own.
-/

namespace LandscapeKit.Hostnet

open Faults Faults.Prog

def At (p : Text) (A : Entry → Prop) (s : Sys) : Prop :=
  (s.author p).isForeign = true ∨ ∃ x, A x ∧ s.files p = some x

/-- This run has put something in place, and nobody but the outside process has changed it
since. -/
def Done (p : Text) (s : Sys) : Prop := s.author p = .run ∨ s.author p = .foreign true

def Tame (S : Text → Prop) (s : Sys) : Prop :=
  ∀ turn ∈ s.schedule, ∀ f ∈ turn.foreign, ¬ S f.path

section Stability

variable {S : Text → Prop} {p : Text} {A B : Entry → Prop} {s t : Sys}

theorem Keeps.at (h : Keeps p s t) (hs : At p A s) : At p A t := by
  rcases h with ⟨hfiles, hauthor⟩ | hforeign
  · rcases hs with hs | ⟨x, hx, hs⟩
    · exact .inl (hauthor ▸ hs)
    · exact .inr ⟨x, hx, hfiles.trans hs⟩
  · left
    rw [hforeign, Author.isForeign_meddled]

theorem Keeps.done (h : Keeps p s t) (hs : Done p s) : Done p t := by
  rcases h with ⟨-, hauthor⟩ | hforeign
  · rw [Done, hauthor]
    exact hs
  · right
    rcases hs with hs | hs <;> rw [hforeign, hs] <;> rfl

theorem stable_at (p : Text) (A : Entry → Prop) : Stable (At p A) :=
  fun _ _ hst hs => (hst.keeps p).at hs

theorem stable_tame : Stable (Tame S) := by
  intro s t hst hs turn hturn
  rw [hst.schedule] at hturn
  exact hs turn (List.mem_of_mem_tail hturn)

theorem Turned.own (hst : Turned s t) (hs : Tame S s) (hp : S p) :
    t.files p = s.files p ∧ t.author p = s.author p :=
  hst.away p fun turn hturn f hf he => hs turn hturn f hf (he ▸ hp)

theorem stable_own (hp : S p) (x : Option Entry) :
    Stable fun s => Tame S s ∧ s.files p = x := by
  rintro s t hst ⟨htame, hs⟩
  exact ⟨stable_tame s t hst htame, (hst.own htame hp).1.trans hs⟩

theorem At.mono (h : At p A s) (hAB : ∀ x, A x → B x) : At p B s := by
  rcases h with h | ⟨x, hx, h⟩
  · exact .inl h
  · exact .inr ⟨x, hAB x hx, h⟩

theorem local_of_keeps {α : Type} {op : Op α} {F : Sys → Prop} (h : Within (Keeps p) op)
    (hF : ∀ s t, Keeps p s t → F s → F t) : Spec F op (fun _ => F) fun _ => F :=
  (h.triple hF).consequence (fun _ hs => hs) (fun _ _ hs => hs) (fun _ _ hs => hs)
    fun _ _ => trivial

theorem at_of_keeps {α : Type} {op : Op α} (h : Within (Keeps p) op) :
    Spec (At p A) op (fun _ => At p A) fun _ => At p A :=
  local_of_keeps h fun _ _ hst hs => hst.at hs

end Stability

section Write

variable {process : Process} {S : Text → Prop} {p tmp dir : Text} {bytes content : Content}
  {m m' : FileMetadata} {A : Entry → Prop}

def Filled (S : Text → Prop) (p : Text) (A : Entry → Prop) (tmp : Text) (x : Entry) (s : Sys) :
    Prop :=
  At p A s ∧ Tame S s ∧ s.files tmp = some x

theorem stable_filled {x : Entry} (hS : S tmp) : Stable (Filled S p A tmp x) :=
  (stable_at p A).and (stable_own hS (some x))

theorem amend_filled {error : HostNetError} {f : Entry → Entry} {part : Fault → Entry → Entry}
    {x : Entry} (hS : S tmp) (hp : p ≠ tmp) :
    Spec (Filled S p A tmp x) (amend error tmp f part) (fun _ => Filled S p A tmp (f x))
      fun _ => At p A := by
  apply call_spec (fun s hs => (stable_filled hS).advance false s hs)
  · rintro s a t ⟨hat, htame, hx⟩ ha
    cases ha
    refine ⟨(overwrite_keeps hp s).at hat, htame, ?_⟩
    rw [overwrite_files_self, hx, Option.map_some]
  · intro s hs hnone
    cases hnone
  · rintro s fault ⟨hat, -, -⟩
    exact (overwrite_keeps hp s).at hat

theorem syncAll_filled {x : Entry} {path : Text} (hS : S tmp) :
    Spec (Filled S p A tmp x) (syncAll path) (fun _ => Filled S p A tmp x) fun _ => At p A := by
  apply (query_spec ((stable_filled hS).advance false)).consequence
  · exact fun s hs => hs
  · exact fun _ s hs => hs.1
  · exact fun _ s hs => hs.1
  · exact fun s hs => hs

theorem fill_filled {c : Content} {m₀ : FileMetadata} (hS : S tmp) (hp : p ≠ tmp) :
    Spec (Filled S p A tmp (.file c m₀)) (fill tmp bytes (some m))
      (fun _ => Filled S p A tmp (.file bytes m)) fun _ => At p A := by
  apply Triple.bind (amend_filled hS hp)
  intro _
  apply Triple.bind (amend_filled hS hp)
  intro _
  apply Triple.bind (amend_filled hS hp)
  intro _
  exact syncAll_filled hS

theorem verifySnapshot_spec {P : Sys → Prop} (hP : ∀ within s, P s → P (s.advance within))
    (hP' : ∀ s, P s → P (s.advance true) ∧ (s.advance true).files = s.files) :
    Spec P (verifySnapshot true p content m)
      (fun _ s => P s ∧ s.files p = some (.file content m)) fun _ => P := by
  have hmeta : Spec P (captureMetadata p)
      (fun m' s => P s ∧ ∃ c, s.files p = some (.file c m')) fun _ => P := by
    apply Triple.bind (query_spec (hP false))
    intro entry
    cases entry with
    | file c m' => exact Triple.pure _ fun s hs => ⟨hs.1, c, hs.2⟩
    | symlink through => exact Triple.fail _ fun s hs => hs.1
    | other => exact Triple.fail _ fun s hs => hs.1
  apply Triple.bind hmeta
  intro m'
  apply Triple.ite
  · intro _
    exact Triple.fail _ fun s hs => hs.1
  intro hm
  rw [not_not] at hm
  subst hm
  -- nothing happens between the two calls, so both see the same entry
  have hread : Spec (fun s => P s ∧ ∃ c, s.files p = some (.file c m')) (read true p)
      (fun c s => P s ∧ s.files p = some (.file c m')) fun _ => P := by
    apply (query_spec ?_).consequence (fun s hs => hs)
    · rintro c s ⟨⟨hs, c', hc'⟩, hask⟩
      rw [hc'] at hask
      cases hask
      exact ⟨hs, hc'⟩
    · exact fun _ s hs => hs.1
    · exact fun s hs => hs
    · rintro s ⟨hs, c, hc⟩
      obtain ⟨h1, h2⟩ := hP' s hs
      exact ⟨h1, c, by rw [h2]; exact hc⟩
  apply Triple.bind hread
  intro c
  apply Triple.ite
  · intro _
    exact Triple.fail _ fun s hs => hs.1
  · intro hc
    rw [not_not] at hc
    subst hc
    exact Triple.pure _ fun s hs => hs

theorem rejectSymlinkTarget_spec {P : Sys → Prop} {within : Bool}
    (hP : ∀ s, P s → P (s.advance within)) :
    Spec P (rejectSymlinkTarget within p) (fun _ => P) fun _ => P := by
  apply Triple.bind (query_spec hP)
  intro entry
  rcases entry with _ | _ | _ | _
  · exact Triple.pure _ fun s hs => hs.1
  · exact Triple.pure _ fun s hs => hs.1
  · exact Triple.fail _ fun s hs => hs.1
  · exact Triple.fail _ fun s hs => hs.1

theorem rename_filled {x : Entry} {within : Bool} (hS : S tmp) (hp : p ≠ tmp) :
    Spec (Filled S p A tmp x) (rename within tmp p) (fun _ s => At p (· = x) s ∧ Done p s)
      fun _ => At p A := by
  apply call_spec (fun s hs => (stable_filled hS).advance within s hs)
  · rintro s a t ⟨-, -, hx⟩ ha
    rw [hx] at ha
    have hfiles : ((s.overwrite p (some x)).overwrite tmp none).files p = some x := by
      rw [overwrite_files_of_ne _ _ hp, overwrite_files_self]
    have hauthor : ((s.overwrite p (some x)).overwrite tmp none).author p = .run := by
      rw [overwrite_author_of_ne _ _ hp, overwrite_author_self]
    split at ha
    · cases ha
    · cases ha
    · rename_i heq _
      cases heq
      cases ha
      exact ⟨.inr ⟨x, rfl, hfiles⟩, .inl hauthor⟩
  · exact fun s hs _ => hs.1
  · exact fun s _ hs => hs.1

theorem checkAndRename_filled {x : Entry} (hS : S tmp) (hp : p ≠ tmp) :
    Spec (Filled S p A tmp x) (checkAndRename tmp p (some (content, m')))
      (fun _ s => At p (· = x) s ∧ Done p s) fun _ => At p A := by
  have hstable : Stable (Filled S p A tmp x) := stable_filled hS
  have hverify : Spec (Filled S p A tmp x) (verifySnapshot true p content m')
      (fun _ => Filled S p A tmp x) fun _ => At p A := by
    apply (verifySnapshot_spec (fun w s hs => hstable.advance w s hs) ?_).consequence
    · exact fun s hs => hs
    · exact fun _ s hs => hs.1
    · exact fun _ s hs => hs.1
    · exact fun s hs => hs
    · exact fun s hs => ⟨hstable.advance true s hs, rfl⟩
  apply Triple.bind hverify
  intro _
  have hreject : Spec (Filled S p A tmp x) (rejectSymlinkTarget true p)
      (fun _ => Filled S p A tmp x) fun _ => At p A :=
    (rejectSymlinkTarget_spec (hstable.advance true)).consequence (fun s hs => hs)
      (fun _ s hs => hs) (fun _ s hs => hs.1) fun s hs => hs
  apply Triple.bind hreject
  intro _
  exact rename_filled hS hp

theorem openNew_spec {path : Text} {P Q : Sys → Prop} (hP : ∀ s, P s → P (s.advance false))
    (hput : ∀ s m, P s → s.files path = none →
      Q (s.overwrite path (some (.file (.utf8 []) m)))) :
    Spec P (openNew process path) (fun created s => if created then Q s else P s) fun _ => P := by
  apply call_spec hP
  · intro s a t hs ha
    split at ha
    · cases ha
      exact hs
    · rename_i hnone
      cases ha
      exact hput s _ hs hnone
  · exact fun s hs _ => hs
  · exact fun s _ hs => hs

theorem createTemp_spec {name : Text} (hslash : '/' ∉ name) {P : Sys → Prop}
    {Q : Text → Sys → Prop} (hP : ∀ s, P s → P (s.advance false))
    (hseq : ∀ s n, P s → P { s with sequence := n })
    (hput : ∀ s tmp m, P s → IsTemp process tmp → s.files tmp = none →
      Q tmp (s.overwrite tmp (some (.file (.utf8 []) m)))) :
    Spec P (createTemp process dir name) (fun tmp s => IsTemp process tmp ∧ Q tmp s)
      fun _ => P := by
  unfold createTemp
  induction 128 with
  | zero => exact Triple.fail _ fun s hs => hs
  | succ attempts ih =>
    rw [createTempFrom]
    have hnext : Spec P nextSequence (fun _ => P) fun _ => P := fun s hs => hseq s _ hs
    apply Triple.bind hnext
    intro sequence
    have htemp : IsTemp process (join dir (tempName process name sequence)) :=
      isTemp_join hslash sequence
    apply Triple.bind (openNew_spec hP fun s m hs hnone => hput s _ m hs htemp hnone)
    intro created
    cases created with
    | true => exact Triple.pure _ fun s hs => ⟨htemp, hs⟩
    | false => exact ih

theorem writeAtomicChecked_at (hS : ∀ q, IsTemp process q → S q) (hp : ¬ IsTemp process p) :
    Spec (fun s => At p A s ∧ Tame S s)
      (writeAtomicChecked process p bytes (some m) (some (content, m')))
      (fun _ s => At p (· = .file bytes m) s ∧ Done p s)
      fun _ => At p fun x => A x ∨ x = .file bytes m := by
  have hstart : Stable fun s => At p A s ∧ Tame S s := (stable_at p A).and stable_tame
  have hold {s : Sys} (h : At p A s) : At p (fun x => A x ∨ x = .file bytes m) s :=
    h.mono fun x hx => .inl hx
  have hnew {s : Sys} (h : At p (· = .file bytes m) s) :
      At p (fun x => A x ∨ x = .file bytes m) s :=
    h.mono fun x hx => .inr hx
  unfold writeAtomicChecked
  split
  · exact Triple.fail _ fun s hs => hold hs.1
  · exact Triple.fail _ fun s hs => hold hs.1
  rename_i dir name _ hname
  have hslash := (fileName_eq_some hname).1
  have hreject : Spec (fun s => At p A s ∧ Tame S s) (rejectSymlinkTarget false p)
      (fun _ s => At p A s ∧ Tame S s) fun _ => At p fun x => A x ∨ x = .file bytes m :=
    (looks_spec hstart).consequence (fun s hs => hs) (fun _ s hs => hs)
      (fun _ s hs => hold hs.1) fun s hs => hs
  apply Triple.bind hreject
  intro _
  have hcreate : Spec (fun s => At p A s ∧ Tame S s) (createTemp process dir name)
      (fun tmp s => IsTemp process tmp ∧ ∃ m₀, Filled S p A tmp (.file (.utf8 []) m₀) s)
      fun _ => At p fun x => A x ∨ x = .file bytes m := by
    apply (createTemp_spec hslash (hstart.advance false) (fun s n hs => hs) ?_).consequence
      (fun s hs => hs) (fun _ s hs => hs) (fun _ s hs => hold hs.1) fun s hs => hs
    intro s tmp m₀ hs htmp _
    have hne : p ≠ tmp := fun he => hp (he ▸ htmp)
    exact ⟨m₀, (overwrite_keeps hne s).at hs.1, hs.2, overwrite_files_self ..⟩
  apply Triple.bind hcreate
  rintro tmp s ⟨htmp, m₀, hfilled⟩
  have hne : p ≠ tmp := fun he => hp (he ▸ htmp)
  have hown := hS tmp htmp
  -- the closure: the target changes only in the rename
  have hfill : Spec (Filled S p A tmp (.file (.utf8 []) m₀)) (fill tmp bytes (some m))
      (fun _ => Filled S p A tmp (.file bytes m)) fun _ => At p fun x => A x ∨ x = .file bytes m :=
    (fill_filled hown hne).consequence (fun s hs => hs) (fun _ s hs => hs)
      (fun _ s hs => hold hs) fun s hs => hs
  have hrename : Spec (Filled S p A tmp (.file bytes m))
      (checkAndRename tmp p (some (content, m')))
      (fun _ s => At p (· = .file bytes m) s ∧ Done p s)
      fun _ => At p fun x => A x ∨ x = .file bytes m :=
    (checkAndRename_filled hown hne).consequence (fun s hs => hs) (fun _ s hs => hs)
      (fun _ s hs => hold hs) fun s hs => hs
  have hsync : Spec (fun s => At p (· = .file bytes m) s ∧ Done p s) (syncAll dir)
      (fun _ s => At p (· = .file bytes m) s ∧ Done p s)
      fun _ => At p fun x => A x ∨ x = .file bytes m :=
    (local_of_keeps inferInstance fun s t hst hs => ⟨hst.at hs.1, hst.done hs.2⟩).consequence
      (fun s hs => hs) (fun _ s hs => hs) (fun _ s hs => hnew hs.1) fun s hs => hs
  have hbody : Spec (Filled S p A tmp (.file (.utf8 []) m₀))
      (fillAndRename dir tmp p bytes (some m) (some (content, m')))
      (fun _ s => At p (· = .file bytes m) s ∧ Done p s)
      fun _ => At p fun x => A x ∨ x = .file bytes m :=
    hfill.bind fun _ => hrename.bind fun _ => hsync
  have hremove : Within (Keeps p) (removeFile tmp) := removeFile_keeps hne
  apply Triple.bind hbody.attempt ?_ s hfilled
  intro result
  cases result with
  | ok u => exact Triple.pure _ fun s hs => hs
  | error e =>
    apply Triple.bind (at_of_keeps inferInstance)
    intro _
    exact Triple.fail _ fun s hs => hs

end Write

end LandscapeKit.Hostnet
