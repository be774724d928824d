import LandscapeKit.HostnetRoles
import LandscapeKit.HostnetEdit

/-!
The planned edit, on line numbers, is an edit by statement: every statement is left as it is,
dropped, or written anew on one line.
-/

namespace LandscapeKit.Hostnet

open Lines

def logicalTexts (lines : List Text) : Option (List Text) :=
  joined '\\' none (lines.map stripCarriageReturn)

theorem logicalFrom_texts (path : Text) (cur : Option LogicalLine) (i : ℕ) (lines : List Text) :
    (logicalFrom path cur i lines).toOption.map (List.map LogicalLine.text) =
      joined '\\' (cur.map (·.text)) (lines.map stripCarriageReturn) := by
  induction lines generalizing cur i with
  | nil => cases cur <;> rfl
  | cons line lines ih =>
    have htext : (nextLine cur i line).text =
        (cur.map (·.text)).getD [] ++ stripCarriageReturn line := by
      cases cur <;> rfl
    have hfrom : logicalFrom path cur i (line :: lines) =
        if (nextLine cur i line).text.getLast? = some '\\' then
          logicalFrom path (some { nextLine cur i line with
            text := (nextLine cur i line).text.dropLast }) (i + 1) lines
        else logicalFrom path none (i + 1) lines >>= fun logical =>
          .ok (nextLine cur i line :: logical) := by
      cases cur <;> rfl
    rw [hfrom, List.map_cons, joined_cons, ← htext]
    split
    · exact ih ..
    · have hrest := ih none (i + 1)
      rw [Option.map_none] at hrest
      rw [← hrest]
      cases logicalFrom path none (i + 1) lines <;> rfl

theorem logicalLines_texts (path : Text) (lines : List Text) :
    (logicalLines path lines).toOption.map (List.map LogicalLine.text) = logicalTexts lines :=
  logicalFrom_texts path none 0 lines

theorem logicalTexts_append {a b : List Text} {ts : List Text} (h : logicalTexts a = some ts) :
    logicalTexts (a ++ b) = (logicalTexts b).map (ts ++ ·) := by
  unfold logicalTexts at *
  rw [List.map_append, joined_append h]

structure Group where
  text : Text
  span : Span
  raw : List Text

def Laid : ℕ → List Group → Prop
  | _, [] => True
  | i, g :: rest =>
    g.span.lines = List.range' i g.raw.length ∧ logicalTexts g.raw = some [g.text] ∧
      Laid (i + g.raw.length) rest

theorem logicalFrom_groups (path : Text) (lines : List Text) (i : ℕ) :
    (∀ logical, logicalFrom path none i lines = .ok logical →
      ∃ groups : List Group,
        logical.map (fun l => (l.text, l.lines)) = groups.map (fun g => (g.text, g.span)) ∧
          lines = groups.flatMap Group.raw ∧ Laid i groups) ∧
    ∀ l logical, logicalFrom path (some l) i lines = .ok logical →
      ∃ (raw : List Text) (text : Text) (groups : List Group),
        logical.map (fun l => (l.text, l.lines)) =
          (text, ⟨l.lines.first, l.lines.more ++ List.range' i raw.length⟩) ::
            groups.map (fun g => (g.text, g.span)) ∧
        lines = raw ++ groups.flatMap Group.raw ∧
        joined '\\' (some l.text) (raw.map stripCarriageReturn) = some [text] ∧
        Laid (i + raw.length) groups := by
  induction lines generalizing i with
  | nil =>
    constructor
    · intro logical h
      cases h
      exact ⟨[], rfl, rfl, trivial⟩
    · intro l logical h
      cases h
  | cons line lines ih =>
    obtain ⟨ihnone, ihsome⟩ := ih (i + 1)
    constructor
    · intro logical h
      rw [logicalFrom] at h
      split at h
      · rename_i hmark
        -- the line stays open: what follows closes it
        obtain ⟨raw, text, groups, hl, rfl, hjoin, hlaid⟩ := ihsome _ _ h
        refine ⟨⟨text, ⟨i, List.range' (i + 1) raw.length⟩, line :: raw⟩ :: groups, ?_, rfl, ?_, ?_, ?_⟩
        · rw [hl]
          rfl
        · rw [Span.lines, List.length_cons, List.range'_succ]
        · rw [logicalTexts, List.map_cons, joined_cons]
          exact (if_pos hmark).trans hjoin
        · rw [List.length_cons, Nat.add_comm raw.length, ← Nat.add_assoc]
          exact hlaid
      · rename_i hmark
        cases hrest : logicalFrom path none (i + 1) lines with
        | error e =>
          rw [hrest] at h
          cases h
        | ok rest =>
          rw [hrest] at h
          cases h
          obtain ⟨groups, hl, rfl, hlaid⟩ := ihnone rest hrest
          refine ⟨⟨stripCarriageReturn line, ⟨i, []⟩, [line]⟩ :: groups, ?_, rfl, rfl, ?_, hlaid⟩
          · rw [List.map_cons, List.map_cons, hl]
            rfl
          · exact joined_single hmark
    · intro l logical h
      rw [logicalFrom] at h
      split at h
      · rename_i hmark
        obtain ⟨raw, text, groups, hl, rfl, hjoin, hlaid⟩ := ihsome _ _ h
        refine ⟨line :: raw, text, groups, ?_, rfl, ?_, ?_⟩
        · rw [hl, List.length_cons, List.range'_succ]
          simp [nextLine]
        · rw [List.map_cons, joined_cons]
          exact (if_pos hmark).trans hjoin
        · rw [List.length_cons, Nat.add_comm raw.length, ← Nat.add_assoc]
          exact hlaid
      · rename_i hmark
        cases hrest : logicalFrom path none (i + 1) lines with
        | error e =>
          rw [hrest] at h
          cases h
        | ok rest =>
          rw [hrest] at h
          cases h
          obtain ⟨groups, hl, rfl, hlaid⟩ := ihnone rest hrest
          refine ⟨[line], l.text ++ stripCarriageReturn line, groups, ?_, rfl, ?_, hlaid⟩
          · rw [List.map_cons, hl]
            rfl
          · rw [List.map_cons, joined_cons]
            exact if_neg hmark

theorem laid_lines {i : ℕ} {groups : List Group} (h : Laid i groups) :
    (groups.flatMap fun g => g.span.lines) =
      List.range' i (groups.flatMap Group.raw).length := by
  induction groups generalizing i with
  | nil => rfl
  | cons g groups ih =>
    obtain ⟨hspan, -, hrest⟩ := h
    rw [List.flatMap_cons, List.flatMap_cons, ih hrest, hspan, List.length_append,
      List.range'_append_1]

section Pieces

variable {ch : Changes} {g : Group}

def Group.piece (ch : Changes) (g : Group) : List Text :=
  (g.raw.zip g.span.lines).filterMap fun x => newLine ch x.1 x.2

theorem newLines_groups {i : ℕ} {groups : List Group} (h : Laid i groups) :
    ((groups.flatMap Group.raw).zipIdx i).filterMap (fun x => newLine ch x.1 x.2) =
      groups.flatMap (Group.piece ch) := by
  induction groups generalizing i with
  | nil => rfl
  | cons g groups ih =>
    obtain ⟨hspan, -, hrest⟩ := h
    rw [List.flatMap_cons, List.flatMap_cons, List.zipIdx_append, List.filterMap_append, ih hrest,
      Group.piece, hspan, List.zipIdx_eq_zip_range']

theorem piece_kept (hlen : g.raw.length = g.span.lines.length)
    (hrem : ∀ i ∈ g.span.lines, i ∉ ch.removals)
    (hrep : ∀ i ∈ g.span.lines, ch.replacements.lookup i = none) : g.piece ch = g.raw := by
  have hsame : (g.raw.zip g.span.lines).filterMap (fun x => newLine ch x.1 x.2) =
      (g.raw.zip g.span.lines).filterMap (fun x => some x.1) := by
    apply List.filterMap_congr
    rintro ⟨line, i⟩ hx
    have hi := (List.of_mem_zip hx).2
    simp only [newLine, if_neg (hrem i hi), hrep i hi, Option.getD_none]
  rw [Group.piece, hsame, List.filterMap_eq_map', List.map_fst_zip hlen.le]

theorem piece_dropped (hrem : ∀ i ∈ g.span.lines, i ∈ ch.removals) : g.piece ch = [] := by
  rw [Group.piece, List.filterMap_eq_nil_iff]
  rintro ⟨line, i⟩ hx
  exact if_pos (hrem i (List.of_mem_zip hx).2)

theorem piece_written {text : Text} (hlen : g.raw.length = g.span.lines.length)
    (hfirst : g.span.first ∉ ch.removals)
    (hrep : ch.replacements.lookup g.span.first = some text)
    (hrem : ∀ i ∈ g.span.more, i ∈ ch.removals) : g.piece ch = [text] := by
  rw [Group.piece]
  cases hraw : g.raw with
  | nil =>
    rw [hraw] at hlen
    simp [Span.lines] at hlen
  | cons line rest =>
    have htail : (rest.zip g.span.more).filterMap (fun x => newLine ch x.1 x.2) = [] := by
      rw [List.filterMap_eq_nil_iff]
      rintro ⟨l, i⟩ hx
      exact if_pos (hrem i (List.of_mem_zip hx).2)
    rw [Span.lines, List.zip_cons_cons, List.filterMap_cons, htail]
    simp [newLine, hfirst, hrep]

end Pieces

def InterfaceBlock.Settled (b : InterfaceBlock) : Prop :=
  b.method = "manual".toList ∧ b.inherits = none ∧ b.optionLines = []

def manualHeader (iface family : Text) : Text :=
  "iface ".toList ++ iface ++ " ".toList ++ family ++ " manual".toList

def selectionText (keyword : Text) (names : List Text) : Text :=
  keyword ++ " ".toList ++ " ".toList.intercalate names

theorem foldlM_cons_ok {α β ε : Type} {f : β → α → Except ε β} {b c : β} {a : α} {l : List α}
    (h : (a :: l).foldlM f b = .ok c) : ∃ b', f b a = .ok b' ∧ l.foldlM f b' = .ok c := by
  rw [List.foldlM_cons] at h
  cases hf : f b a with
  | error e =>
    rw [hf] at h
    cases h
  | ok b' =>
    rw [hf] at h
    exact ⟨b', rfl, h⟩

section Changes

variable {M : Type} {env : Env M} {path : Text} {managed : List Text} {ch ch' : Changes}

def Rewritten (names : List Text) (b : InterfaceBlock) : Prop := b.iface ∈ names ∧ ¬ b.Settled

theorem planBlock_ok {names : List Text} {b : InterfaceBlock}
    (h : planBlock path names ch b = .ok ch') :
    (¬ Rewritten names b ∧ ch' = ch) ∨ Rewritten names b ∧ ch' =
      ⟨(b.declarationLines.first, manualHeader b.iface b.family) :: ch.replacements,
        ch.removals ++ b.declarationLines.more ++ b.optionLines⟩ := by
  unfold planBlock at h
  split at h
  · rename_i hname
    exact .inl ⟨fun hr => hname hr.1, (Except.ok.inj h).symm⟩
  split at h
  · cases h
  split at h
  · rename_i hsettled
    exact .inl ⟨fun hr => hr.2 hsettled, (Except.ok.inj h).symm⟩
  · rename_i hname _ hsettled
    exact .inr ⟨⟨not_not.mp hname, hsettled⟩, (Except.ok.inj h).symm⟩

theorem planBlocks_spec {names : List Text} {blocks : List InterfaceBlock}
    (h : blocks.foldlM (planBlock path names) ch = .ok ch') :
    (∀ x, x ∈ ch'.replacements ↔ x ∈ ch.replacements ∨ ∃ b ∈ blocks, Rewritten names b ∧
      x = (b.declarationLines.first, manualHeader b.iface b.family)) ∧
    ∀ i, i ∈ ch'.removals ↔ i ∈ ch.removals ∨ ∃ b ∈ blocks, Rewritten names b ∧
      (i ∈ b.declarationLines.more ∨ i ∈ b.optionLines) := by
  induction blocks generalizing ch with
  | nil =>
    obtain rfl := Except.ok.inj h
    simp
  | cons b blocks ih =>
    obtain ⟨ch₁, hstep, hrest⟩ := foldlM_cons_ok h
    obtain ⟨hrep, hrem⟩ := ih hrest
    rcases planBlock_ok hstep with ⟨hb, rfl⟩ | ⟨hb, rfl⟩
    · simp only [hrep, hrem, List.mem_cons, exists_eq_or_imp, hb, false_and, false_or,
        implies_true, and_self]
    · simp only [hrep, hrem, List.mem_cons, exists_eq_or_imp, hb, true_and, List.mem_append]
      constructor
      · intro x
        rw [or_assoc, or_left_comm]
      · intro i
        simp only [or_assoc]

theorem keepInterfaces_spec {s : SelectionLine} {names : List Text} {acc acc' : List Text × Bool}
    (h : names.foldlM (keepInterface env path managed s) acc = .ok acc') :
    acc'.1 = acc.1 ++ names.filter (· ∉ managed) ∧
      (acc'.2 = true ↔ acc.2 = true ∨ ∃ n ∈ names, n ∈ managed) := by
  induction names generalizing acc with
  | nil =>
    obtain rfl := Except.ok.inj h
    simp
  | cons n names ih =>
    obtain ⟨acc₁, hstep, hrest⟩ := foldlM_cons_ok h
    obtain ⟨hkept, hchanged⟩ := ih hrest
    unfold keepInterface at hstep
    split at hstep
    · rename_i hn
      obtain rfl := Except.ok.inj hstep
      simp [hkept, hchanged, hn]
    · rename_i hn
      have hacc : acc₁ = (acc.1 ++ [n], acc.2) := by
        split at hstep
        · cases hcheck : checkPattern env path managed s n with
          | error e =>
            rw [hcheck] at hstep
            cases hstep
          | ok u =>
            rw [hcheck] at hstep
            exact (Except.ok.inj hstep).symm
        · exact (Except.ok.inj hstep).symm
      subst hacc
      simp [hkept, hchanged, hn]

def Narrowed (managed : List Text) (s : SelectionLine) : Prop := ∃ n ∈ s.interfaces, n ∈ managed

def keptNames (managed : List Text) (s : SelectionLine) : List Text :=
  s.interfaces.filter (· ∉ managed)

theorem planSelection_ok {s : SelectionLine} (h : planSelection env path managed ch s = .ok ch') :
    (¬ Narrowed managed s ∧ ch' = ch) ∨
    (Narrowed managed s ∧ keptNames managed s = [] ∧
      ch' = ⟨ch.replacements, ch.removals ++ s.lines.more ++ [s.lines.first]⟩) ∨
    Narrowed managed s ∧ keptNames managed s ≠ [] ∧
      ch' = ⟨(s.lines.first, selectionText s.keyword (keptNames managed s)) :: ch.replacements,
        ch.removals ++ s.lines.more⟩ := by
  unfold planSelection at h
  cases hfold : s.interfaces.foldlM (keepInterface env path managed s) ([], false) with
  | error e =>
    rw [hfold] at h
    cases h
  | ok acc =>
    rw [hfold] at h
    obtain ⟨hkept, hchanged⟩ := keepInterfaces_spec hfold
    obtain ⟨kept, changed⟩ := acc
    obtain rfl : kept = keptNames managed s := hkept
    simp only [bind, Except.bind] at h
    split at h
    · rename_i hc
      left
      refine ⟨fun hn => ?_, (Except.ok.inj h).symm⟩
      have hc' : changed = true := hchanged.mpr (.inr hn)
      rw [hc'] at hc
      cases hc
    · rename_i hc
      have hn : Narrowed managed s := by
        rcases hchanged.mp (by simpa using hc) with hfalse | hn
        · cases hfalse
        · exact hn
      right
      split at h
      · rename_i hempty
        exact .inl ⟨hn, hempty, (Except.ok.inj h).symm⟩
      · rename_i hempty
        exact .inr ⟨hn, hempty, (Except.ok.inj h).symm⟩

theorem planSelections_spec {selections : List SelectionLine}
    (h : selections.foldlM (planSelection env path managed) ch = .ok ch') :
    (∀ x, x ∈ ch'.replacements ↔ x ∈ ch.replacements ∨ ∃ s ∈ selections, Narrowed managed s ∧
      keptNames managed s ≠ [] ∧ x = (s.lines.first, selectionText s.keyword (keptNames managed s))) ∧
    ∀ i, i ∈ ch'.removals ↔ i ∈ ch.removals ∨ ∃ s ∈ selections, Narrowed managed s ∧
      (i ∈ s.lines.more ∨ keptNames managed s = [] ∧ i = s.lines.first) := by
  induction selections generalizing ch with
  | nil =>
    obtain rfl := Except.ok.inj h
    simp
  | cons s selections ih =>
    obtain ⟨ch₁, hstep, hrest⟩ := foldlM_cons_ok h
    obtain ⟨hrep, hrem⟩ := ih hrest
    rcases planSelection_ok hstep with ⟨hs, rfl⟩ | ⟨hs, hk, rfl⟩ | ⟨hs, hk, rfl⟩
    · simp only [hrep, hrem, List.mem_cons, exists_eq_or_imp, hs, false_and, false_or,
        implies_true, and_self]
    · simp only [hrep, hrem, List.mem_cons, exists_eq_or_imp, hs, hk, true_and, List.mem_append,
        ne_eq, not_true_eq_false, false_and, false_or, implies_true, List.not_mem_nil, or_false]
      intro i
      simp only [or_assoc]
    · simp only [hrep, hrem, List.mem_cons, exists_eq_or_imp, hs, hk, true_and, List.mem_append,
        ne_eq, not_false_eq_true, false_and, or_false]
      constructor
      · intro x
        rw [or_assoc, or_left_comm]
      · intro i
        simp only [or_assoc]

theorem planChanges_spec {parsed : ParsedFile} (h : planChanges env path managed parsed = .ok ch) :
    (∀ x, x ∈ ch.replacements ↔
      (∃ b ∈ parsed.blocks, Rewritten managed b ∧
        x = (b.declarationLines.first, manualHeader b.iface b.family)) ∨
      ∃ s ∈ parsed.selections, Narrowed managed s ∧ keptNames managed s ≠ [] ∧
        x = (s.lines.first, selectionText s.keyword (keptNames managed s))) ∧
    ∀ i, i ∈ ch.removals ↔
      (∃ b ∈ parsed.blocks, Rewritten managed b ∧
        (i ∈ b.declarationLines.more ∨ i ∈ b.optionLines)) ∨
      ∃ s ∈ parsed.selections, Narrowed managed s ∧
        (i ∈ s.lines.more ∨ keptNames managed s = [] ∧ i = s.lines.first) := by
  simp only [planChanges, bind, Except.bind] at h
  split at h
  · cases h
  rename_i ch₁ hblocks
  obtain ⟨hrep₁, hrem₁⟩ := planBlocks_spec hblocks
  obtain ⟨hrep, hrem⟩ := planSelections_spec h
  -- a block of this file is managed when its name is
  have hnames : ∀ b ∈ parsed.blocks,
      (Rewritten ((parsed.blocks.map (·.iface)).filter (· ∈ managed)) b ↔ Rewritten managed b) := by
    intro b hb
    have hmem : b.iface ∈ parsed.blocks.map (·.iface) := List.mem_map_of_mem hb
    simp only [Rewritten, List.mem_filter, hmem, true_and, decide_eq_true_eq]
  constructor
  · intro x
    rw [hrep, hrep₁]
    simp only [List.not_mem_nil, false_or]
    refine or_congr (exists_congr fun b => and_congr_right fun hb => ?_) Iff.rfl
    rw [hnames b hb]
  · intro i
    rw [hrem, hrem₁]
    simp only [List.not_mem_nil, false_or]
    refine or_congr (exists_congr fun b => and_congr_right fun hb => ?_) Iff.rfl
    rw [hnames b hb]

end Changes

abbrev Statements := List (Role × Group)

namespace Statements

def items (R : Statements) : List (Role × Span) := R.map fun x => (x.1, x.2.span)

def roles (R : Statements) : List Role := R.map Prod.fst

def Apart (R : Statements) : Prop := (R.flatMap fun x => x.2.span.lines).Nodup

variable {R : Statements}

theorem apart_of_laid {i : ℕ} (h : Laid i (R.map Prod.snd)) : R.Apart := by
  have hspans : (R.flatMap fun x => x.2.span.lines) =
      (R.map Prod.snd).flatMap fun g => g.span.lines := by
    rw [List.flatMap_map]
  rw [Apart, hspans, laid_lines h]
  exact List.nodup_range'

theorem Apart.split_unique {pre pre' post post' : Statements} {x y : Role × Group} {i : ℕ}
    (h : (pre ++ x :: post).Apart) (he : pre ++ x :: post = pre' ++ y :: post')
    (hx : i ∈ x.2.span.lines) (hy : i ∈ y.2.span.lines) :
    pre = pre' ∧ x = y ∧ post = post' := by
  induction pre generalizing pre' with
  | nil =>
    cases pre' with
    | nil =>
      obtain ⟨rfl, rfl⟩ := List.cons.inj he
      exact ⟨rfl, rfl, rfl⟩
    | cons z pre' =>
      obtain ⟨rfl, rfl⟩ := List.cons.inj he
      have hdisj := (List.nodup_append.mp h).2.2 i hx i
      exact (hdisj (List.mem_flatMap.mpr ⟨y, by simp, hy⟩) rfl).elim
  | cons z pre ih =>
    cases pre' with
    | nil =>
      obtain ⟨rfl, rfl⟩ := List.cons.inj he
      have hdisj := (List.nodup_append.mp h).2.2 i hy i
      exact (hdisj (List.mem_flatMap.mpr ⟨x, by simp, hx⟩) rfl).elim
    | cons z' pre' =>
      obtain ⟨rfl, htail⟩ := List.cons.inj he
      obtain ⟨rfl, rfl, rfl⟩ := ih (List.nodup_append.mp h).2.1 htail
      exact ⟨rfl, rfl, rfl⟩

theorem Apart.eq_of_mem {pre post : Statements} {x y : Role × Group} {i : ℕ}
    (h : (pre ++ x :: post).Apart) (hmem : y ∈ pre ++ x :: post)
    (hx : i ∈ x.2.span.lines) (hy : i ∈ y.2.span.lines) : y = x := by
  obtain ⟨pre', post', he⟩ := List.append_of_mem hmem
  exact (h.split_unique he hx hy).2.1.symm

def blockAt (iface family method : Text) (inherits : Option Text) (lines : Span)
    (post : Statements) : InterfaceBlock :=
  ⟨iface, family, method, lines, inherits, (collect post.items).1.flatMap (·.lines.lines),
    (collect post.items).1⟩

theorem mem_blocks {b : InterfaceBlock} :
    b ∈ (collect R.items).2 ↔ ∃ pre iface family method inherits g post,
      R = pre ++ (.header iface family method inherits, g) :: post ∧
        b = blockAt iface family method inherits g.span post := by
  induction R with
  | nil => simp [items, collect]
  | cons x R ih =>
    obtain ⟨r, g⟩ := x
    constructor
    · intro hb
      have hcases : b ∈ (collect (items R)).2 ∨ ∃ iface family method inherits,
          r = .header iface family method inherits ∧
            b = blockAt iface family method inherits g.span R := by
        cases r with
        | header iface family method inherits =>
          rcases List.mem_cons.mp hb with rfl | hb
          · exact .inr ⟨_, _, _, _, rfl, rfl⟩
          · exact .inl hb
        | _ => exact .inl hb
      rcases hcases with hb | ⟨iface, family, method, inherits, rfl, rfl⟩
      · obtain ⟨pre, iface, family, method, inherits, g', post, rfl, rfl⟩ := ih.mp hb
        exact ⟨(r, g) :: pre, iface, family, method, inherits, g', post, rfl, rfl⟩
      · exact ⟨[], iface, family, method, inherits, g, R, rfl, rfl⟩
    · rintro ⟨pre, iface, family, method, inherits, g', post, he, rfl⟩
      cases pre with
      | nil =>
        obtain ⟨hx, rfl⟩ := List.cons.inj he
        cases hx
        exact List.mem_cons_self ..
      | cons x pre =>
        obtain ⟨rfl, htail⟩ := List.cons.inj he
        have hb := ih.mpr ⟨pre, iface, family, method, inherits, g', post, htail, rfl⟩
        cases r with
        | header => exact List.mem_cons_of_mem _ hb
        | _ => exact hb

theorem follows_append {o : Open} {rs rs' : List Role} :
    Follows o (rs ++ rs') ↔ Follows o rs ∧ Follows (o.after rs) rs' := by
  induction rs generalizing o with
  | nil => exact ⟨fun h => ⟨trivial, h⟩, fun h => h.2⟩
  | cons r rs ih => exact (and_congr_right fun _ => ih).trans and_assoc.symm

theorem mem_options {name : Text} {o : InterfaceOption} (hf : Follows (.iface name) R.roles)
    (ho : o ∈ (collect R.items).1) :
    ∃ x ∈ R, x.1 = .option name o.key o.values ∧ x.2.span = o.lines := by
  induction R with
  | nil => exact absurd ho List.not_mem_nil
  | cons x R ih =>
    obtain ⟨r, g⟩ := x
    cases r with
    | option iface key values =>
      obtain ⟨hstands, hrest⟩ := hf
      cases hstands
      rcases List.mem_cons.mp ho with rfl | ho
      · exact ⟨_, List.mem_cons_self .., rfl, rfl⟩
      · obtain ⟨x, hx, h⟩ := ih hrest ho
        exact ⟨x, List.mem_cons_of_mem _ hx, h⟩
    | comment | mappingOption =>
      obtain ⟨x, hx, h⟩ := ih hf.2 ho
      exact ⟨x, List.mem_cons_of_mem _ hx, h⟩
    | _ => exact absurd ho List.not_mem_nil

theorem option_mem {o : Open} {name key : Text} {values : List Text} {g : Group}
    (hf : Follows o R.roles) (hx : (.option name key values, g) ∈ R) :
    (o = .iface name ∧ ⟨key, values, g.span⟩ ∈ (collect R.items).1) ∨
      ∃ b ∈ (collect R.items).2, b.iface = name ∧ ∀ i ∈ g.span.lines, i ∈ b.optionLines := by
  induction R generalizing o with
  | nil => exact absurd hx List.not_mem_nil
  | cons x R ih =>
    obtain ⟨hstands, hrest⟩ := hf
    rcases List.mem_cons.mp hx with rfl | htail
    · exact .inl ⟨hstands, List.mem_cons_self ..⟩
    · obtain ⟨r, g'⟩ := x
      rcases ih hrest htail with ⟨hopen, hmem⟩ | ⟨b, hb, h⟩
      · cases r with
        | option => exact .inl ⟨hopen, List.mem_cons_of_mem _ hmem⟩
        | comment | mappingOption => exact .inl ⟨hopen, hmem⟩
        | header iface =>
          right
          cases hopen
          refine ⟨_, List.mem_cons_self .., rfl, fun i hi => ?_⟩
          exact List.mem_flatMap.mpr ⟨_, hmem, hi⟩
        | _ => cases hopen
      · right
        cases r with
        | header => exact ⟨b, List.mem_cons_of_mem _ hb, h⟩
        | _ => exact ⟨b, hb, h⟩

theorem mem_selections {s : SelectionLine} :
    s ∈ R.items.filterMap Role.asSelection ↔ ∃ g, (.selection s.keyword s.interfaces, g) ∈ R ∧
      s.lines = g.span := by
  rw [items, List.mem_filterMap]
  constructor
  · rintro ⟨x, hx, hs⟩
    obtain ⟨⟨r, g⟩, hr, rfl⟩ := List.mem_map.mp hx
    cases r with
    | selection keyword interfaces =>
      obtain rfl := Option.some.inj hs
      exact ⟨g, hr, rfl⟩
    | _ => cases hs
  · rintro ⟨g, hg, hs⟩
    refine ⟨_, List.mem_map_of_mem hg, ?_⟩
    rw [← hs]
    rfl

end Statements

end LandscapeKit.Hostnet
