import LandscapeKit.DeployFrames

/-!
Which files a part of a workflow leaves alone. A request is described by the paths it
touches; a program whose requests all stay inside an area keeps what lies outside it, however
the program ends.
-/

namespace LandscapeKit.Deploy

open Faults

variable {H α : Type}

section Requests

variable {out m : Machine} {q : Path}

theorem Machine.files_graftFiles {dirs : List Path} (h : ∀ p ∈ dirs, ¬ p <+: q) :
    (m.graftFiles out dirs).files q = m.files q := by
  unfold Machine.graftFiles Machine.setFiles
  dsimp only
  generalize m.files = fs
  induction dirs generalizing fs with
  | nil => rfl
  | cons d ds ih =>
    rw [List.foldl_cons, ih fun p hp => h p (List.mem_cons_of_mem d hp)]
    exact if_neg (h d (List.mem_cons_self ..))

def Act.creates : Act α → List Path
  | .createDirAll p => [p]
  | _ => []

theorem Act.files_done_of_creates (act : Act α) (hc : act.creates = [])
    (h : ∀ p ∈ act.touches, ¬ p <+: q) : (act.done out m).files q = m.files q := by
  cases act with
  | createDirAll p => simp [Act.creates] at hc
  | removeDirAll p =>
    have hp : ¬ p <+: q := h p (by simp [Act.touches])
    simp only [Act.done, Machine.setFiles, Files.remove, if_neg hp]
  | removeFile p =>
    have hp : q ≠ p := fun he => h p (by simp [Act.touches]) (he ▸ List.prefix_refl q)
    simp only [Act.done, Machine.setFiles, Files.erase, Function.update_of_ne hp]
  | rename p r =>
    have hp : ¬ p <+: q := h p (by simp [Act.touches])
    have hr : ¬ r <+: q := h r (by simp [Act.touches])
    simp only [Act.done, Machine.setFiles, Files.move, if_neg hp, if_neg hr]
  | copyTree p r =>
    have hr : ¬ r <+: q := h r (by simp [Act.touches])
    simp only [Act.done, Machine.setFiles, Files.copy, if_neg hr]
  | copyFile p r =>
    have hr : q ≠ r := fun he => h r (by simp [Act.touches]) (he ▸ List.prefix_refl q)
    simp only [Act.done]
    split
    · simp only [Machine.setFiles, Files.put, Function.update_of_ne hr]
    · rfl
  | writeFile p d =>
    have hp : q ≠ p := fun he => h p (by simp [Act.touches]) (he ▸ List.prefix_refl q)
    simp only [Act.done, Machine.setFiles, Files.put, Function.update_of_ne hp]
  | symlink p r =>
    have hr : q ≠ r := fun he => h r (by simp [Act.touches]) (he ▸ List.prefix_refl q)
    simp only [Act.done, Machine.setFiles, Files.put, Function.update_of_ne hr]
  | _ => first | rfl | exact Machine.files_graftFiles h

theorem Act.files_done (act : Act α) (h : ∀ p ∈ act.touches, ¬ p <+: q)
    (hq : m.files q ≠ none) : (act.done out m).files q = m.files q := by
  cases act with
  | createDirAll p =>
    simp only [Act.done, Machine.setFiles, Files.makeDirs, hq, and_false, if_false]
  | _ => exact Act.files_done_of_creates _ rfl h

theorem Act.files_partly (act : Act α) (h : ∀ p ∈ act.touches, ¬ p <+: q) :
    (act.partly out m).files q = m.files q := by
  cases act with
  | removeDirAll p =>
    have hp : ¬ p <+: q := h p (by simp [Act.touches])
    simp only [Act.partly, Machine.setFiles, Files.removePart, hp, false_and, if_false]
  | copyTree p r => exact Machine.files_graftFiles h
  | copyFile p r => exact Machine.files_graftFiles h
  | _ => first | rfl | exact Machine.files_graftFiles h

theorem Machine.subtree_graftFiles {p : Path} {dirs : List Path} (h : ∀ d ∈ dirs, Apart d p) :
    (m.graftFiles out dirs).files.subtree p = m.files.subtree p := by
  funext r
  exact Machine.files_graftFiles fun d hd => ((h d hd).append_right r).1

theorem Act.subtree_done {p : Path} (act : Act α) (ht : ∀ r ∈ act.touches, Apart r p)
    (hc : ∀ r ∈ act.creates, ¬ p <+: r) :
    (act.done out m).files.subtree p = m.files.subtree p := by
  cases act with
  | createDirAll r => exact Files.subtree_makeDirs_outside _ (hc r (by simp [Act.creates]))
  | removeDirAll r => exact Files.subtree_remove_apart _ (ht r (by simp [Act.touches]))
  | removeFile r => exact Files.subtree_erase_apart _ (ht r (by simp [Act.touches])).2
  | rename r r' =>
    exact Files.subtree_move_apart _ (ht r (by simp [Act.touches]))
      (ht r' (by simp [Act.touches]))
  | copyTree r r' => exact Files.subtree_copy_apart _ (ht r' (by simp [Act.touches]))
  | copyFile r r' =>
    simp only [Act.done]
    split
    · exact Files.subtree_put_apart _ (ht r' (by simp [Act.touches])).2
    · rfl
  | writeFile r d => exact Files.subtree_put_apart _ (ht r (by simp [Act.touches])).2
  | symlink r r' => exact Files.subtree_put_apart _ (ht r' (by simp [Act.touches])).2
  | _ => first | rfl | exact Machine.subtree_graftFiles ht

theorem Act.subtree_partly {p : Path} (act : Act α) (ht : ∀ r ∈ act.touches, Apart r p) :
    (act.partly out m).files.subtree p = m.files.subtree p := by
  cases act with
  | removeDirAll r => exact Files.subtree_removePart_apart _ (ht r (by simp [Act.touches]))
  | copyTree r r' => exact Machine.subtree_graftFiles ht
  | copyFile r r' => exact Machine.subtree_graftFiles ht
  | _ => first | rfl | exact Machine.subtree_graftFiles ht

theorem Act.subtree_perform {p : Path} (host : Host H) (act : Act α)
    (ht : ∀ r ∈ act.touches, Apart r p) (hc : ∀ r ∈ act.creates, ¬ p <+: r) (w : World H) :
    (host.perform act w).2.machine.files.subtree p = w.machine.files.subtree p := by
  unfold Host.perform
  split
  · exact act.subtree_done ht hc
  · exact act.subtree_partly ht
  · dsimp only
    split
    · exact act.subtree_done ht hc
    · exact act.subtree_partly ht

end Requests

/-- A request that changes nothing outside the area. -/
class Act.Inside (area : List Path) (act : Act α) : Prop where
  inside : ∀ p ∈ act.touches, ∃ a ∈ area, a <+: p

/-- Neither the transaction file nor the workflow's own variables changed, and outside the
area what was there is still there. -/
structure Steady (area : List Path) (w w' : World H) : Prop where
  silent : Silent w w'
  locals : w'.locals = w.locals
  files : ∀ q, (∀ p ∈ area, ¬ p <+: q) → w.machine.files q ≠ none →
    w'.machine.files q = w.machine.files q

namespace Steady

variable {area : List Path}

instance : Std.Refl (Steady (H := H) area) := ⟨fun _ => ⟨⟨rfl, rfl⟩, rfl, fun _ _ _ => rfl⟩⟩

instance : IsTrans (World H) (Steady area) := by
  refine ⟨fun a b c hab hbc => ⟨IsTrans.trans _ _ _ hab.silent hbc.silent,
    hbc.locals.trans hab.locals, fun q hq ha => ?_⟩⟩
  have hb := hab.files q hq ha
  exact (hbc.files q hq (hb ▸ ha)).trans hb

theorem of_host (w : World H) (h : H) : Steady area w { w with host := h } :=
  ⟨⟨rfl, rfl⟩, rfl, fun _ _ _ => rfl⟩

variable (host : Host H)

instance perform (act : Act α) [hact : act.Inside area] :
    Within (Steady area) (host.perform act) := by
  refine ⟨fun w => ⟨(Silent.perform host act).rel w, ?_, fun q hq hw => ?_⟩⟩
  · unfold Host.perform
    split <;> rfl
  have hout : ∀ p ∈ act.touches, ¬ p <+: q := by
    intro p hp hpq
    obtain ⟨a, ha, hap⟩ := hact.inside p hp
    exact hq a ha (hap.trans hpq)
  unfold Host.perform
  split
  · exact act.files_done hout hw
  · exact act.files_partly hout
  · dsimp only
    split
    · exact act.files_done hout hw
    · exact act.files_partly hout

end Steady

section Inside

variable {area : List Path}

theorem Act.inside_of_nil {act : Act α} (h : act.touches = []) : act.Inside area :=
  ⟨fun p hp => by simp [h] at hp⟩

instance (c : Check) : (Act.check c).Inside area := Act.inside_of_nil rfl
instance (p : Path) : (Act.createDirAll p).Inside area := Act.inside_of_nil rfl
instance (p : Path) : (Act.readFile p).Inside area := Act.inside_of_nil rfl
instance (p : Path) : (Act.hashFile p).Inside area := Act.inside_of_nil rfl
instance (v : Verb) (unit : String) : (Act.systemctl v unit).Inside area := Act.inside_of_nil rfl
instance (unit : String) : (Act.writeUnit unit).Inside area := Act.inside_of_nil rfl
instance (unit : String) : (Act.removeUnit unit).Inside area := Act.inside_of_nil rfl
instance (b : ServiceBefore) : (Act.restoreRegistration b).Inside area := Act.inside_of_nil rfl
instance : Act.mainPid.Inside area := Act.inside_of_nil rfl
instance : Act.now.Inside area := Act.inside_of_nil rfl
instance : Act.accepted.Inside area := Act.inside_of_nil rfl
instance : Act.exportConfig.Inside area := Act.inside_of_nil rfl

instance (host : Host H) : ServiceFrame (Steady area) host :=
  ⟨fun c => Steady.perform host (.check c), fun _ _ => inferInstance,
    fun _ => inferInstance, fun _ => inferInstance, fun _ => inferInstance, inferInstance⟩

end Inside

/-- A request that only looks. -/
class Act.Passive (act : Act α) : Prop where
  done : ∀ out m, act.done out m = m
  partly : ∀ out m, act.partly out m = m

instance (c : Check) : (Act.check c).Passive := ⟨fun _ _ => rfl, fun _ _ => rfl⟩
instance (p : Path) : (Act.readFile p).Passive := ⟨fun _ _ => rfl, fun _ _ => rfl⟩
instance (p : Path) : (Act.hashFile p).Passive := ⟨fun _ _ => rfl, fun _ _ => rfl⟩
instance : Act.mainPid.Passive := ⟨fun _ _ => rfl, fun _ _ => rfl⟩
instance : Act.now.Passive := ⟨fun _ _ => rfl, fun _ _ => rfl⟩
instance : Act.accepted.Passive := ⟨fun _ _ => rfl, fun _ _ => rfl⟩
instance : Act.exportConfig.Passive := ⟨fun _ _ => rfl, fun _ _ => rfl⟩

def Idle (w w' : World H) : Prop := ∃ h, w' = { w with host := h }

namespace Idle

instance : Std.Refl (Idle (H := H)) := ⟨fun w => ⟨w.host, rfl⟩⟩

instance : IsTrans (World H) Idle := by
  refine ⟨?_⟩
  rintro a b c ⟨h, rfl⟩ ⟨g, rfl⟩
  exact ⟨g, rfl⟩

variable (host : Host H)

instance perform (act : Act α) [hact : act.Passive] : Within Idle (host.perform act) := by
  refine ⟨fun w => ?_⟩
  unfold Host.perform
  split
  · exact ⟨_, by rw [hact.done]⟩
  · exact ⟨_, by rw [hact.partly]⟩
  · dsimp only
    split
    · exact ⟨_, by rw [hact.done]⟩
    · exact ⟨_, by rw [hact.partly]⟩

instance check (c : Check) : Within Idle (host.check c) := perform host (.check c)

instance findUnfinished : Within Idle host.findUnfinished := by
  unfold Host.findUnfinished
  refine Within.andThen inferInstance fun _ => Within.andThen inferInstance fun w => ?_
  split
  · infer_instance
  · split <;> infer_instance

instance readDocument (p : Path) : Within Idle (host.readDocument p) := by
  unfold Host.readDocument
  refine Within.andThen inferInstance fun _ => Within.andThen inferInstance fun m => ?_
  split <;> infer_instance

instance loadState : Within Idle host.loadState := by
  unfold Host.loadState
  refine Within.andThen inferInstance fun _ => Within.andThen inferInstance fun m => ?_
  split
  · infer_instance
  · split <;> infer_instance
  · infer_instance

end Idle

/-- Neither the files nor the units changed. A mark, a persist and the removal of the
transaction file leave the machine alone. -/
def MachineKept (w w' : World H) : Prop := w'.machine = w.machine

namespace MachineKept

instance : Std.Refl (MachineKept (H := H)) := ⟨fun _ => rfl⟩

instance : IsTrans (World H) MachineKept := ⟨fun _ _ _ h g => g.trans h⟩

theorem of_idle {p : Flow H α} (h : Within Idle p) : Within MachineKept p :=
  h.mono fun w w' ⟨k, he⟩ => by rw [he]; rfl

variable (host : Host H)

instance check (c : Check) : Within MachineKept (host.check c) := of_idle (Idle.check host c)

instance writeTransaction (call : Call) (t : TransactionFile) :
    Within MachineKept (host.writeTransaction call t) := by
  refine ⟨fun w => ?_⟩
  unfold Host.writeTransaction
  split
  · rfl
  · dsimp only
    split
    · rfl
    · rfl
    · rename_i b _ _ _
      cases b <;> rfl

instance markPhaseAs (call : Call) (t : TransactionFile) (phase : Phase) :
    Within MachineKept (host.markPhaseAs call t phase) := by
  unfold Host.markPhaseAs
  infer_instance

instance markPhase (t : TransactionFile) (phase : Phase) :
    Within MachineKept (host.markPhase t phase) := markPhaseAs host .markPhase t phase

instance removeTransaction : Within MachineKept host.removeTransaction := by
  refine ⟨fun w => ?_⟩
  unfold Host.removeTransaction
  split
  · rfl
  · rfl
  · rename_i b _ _ _
    cases b <;> rfl

end MachineKept

end LandscapeKit.Deploy
