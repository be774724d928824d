import Mathlib.Data.List.Nodup
import LandscapeKit.HostnetGroups

/-!
The edit of a file, statement by statement, and that the planned changes of its physical lines
amount to it.
-/

namespace LandscapeKit.Hostnet

open Lines

section Roles

variable {α β : Type} {o : Open}

def Role.TopLevel : Role → Prop
  | .comment | .option .. | .mappingOption => False
  | _ => True

theorem headerRole_topLevel {args : List Text} {r : Role} (h : headerRole args = some r) :
    r.TopLevel := by
  unfold headerRole at h
  split at h
  · cases h
    trivial
  · split at h
    · cases h
    · cases h
      trivial
  · cases h

theorem topRole_topLevel {keyword : Text} {args : List Text} {r : Role}
    (h : topRole keyword args = some r) : r.TopLevel := by
  have hargs {r' : Role} (h : (if args = [] then none else some r') = some r)
      (hr' : r'.TopLevel) : r.TopLevel := by
    split at h
    · cases h
    · cases h
      exact hr'
  unfold topRole at h
  split at h
  · exact headerRole_topLevel h
  split at h
  · exact hargs h trivial
  split at h
  · exact hargs h trivial
  split at h
  · exact hargs h trivial
  split at h
  · split at h
    · cases h
      trivial
    · cases h
  · exact hargs h trivial

theorem roleOf_cases {text : Text} {r : Role} (h : roleOf o text = some r) :
    (∀ o', roleOf o' text = some r) ∧ (r = .comment ∨ r.TopLevel) ∨
      o ≠ .none ∧ r.Stands o ∧ r.next o = o := by
  unfold roleOf at h ⊢
  split at h
  · rename_i hcomment
    cases h
    exact .inl ⟨fun o' => if_pos hcomment, .inl rfl⟩
  rename_i hcomment
  simp only [if_neg hcomment]
  cases hwords : splitWhitespace (trimIndent text) with
  | nil =>
    rw [hwords] at h
    cases h
    exact .inl ⟨fun o' => rfl, .inl rfl⟩
  | cons keyword args =>
    rw [hwords] at h
    dsimp only at h ⊢
    split at h
    · right
      unfold optionRole at h
      split at h
      · cases h
        exact ⟨Open.noConfusion, rfl, rfl⟩
      · cases h
        exact ⟨Open.noConfusion, rfl, rfl⟩
      · cases h
    · rename_i htop
      left
      simp only [if_neg htop]
      exact ⟨fun o' => h, .inr (topRole_topLevel h)⟩

theorem Role.TopLevel.stands {r : Role} (h : r.TopLevel) (o : Open) : r.Stands o := by
  cases r with
  | comment | option | mappingOption => exact h.elim
  | _ => trivial

theorem Role.TopLevel.next_eq {r : Role} (h : r.TopLevel) (o o' : Open) : r.next o = r.next o' := by
  cases r with
  | comment | option | mappingOption => exact h.elim
  | _ => rfl

theorem roleOf_stands {text : Text} {r : Role} (h : roleOf o text = some r) : r.Stands o := by
  rcases roleOf_cases h with ⟨-, rfl | htop⟩ | ⟨-, hstands, -⟩
  · trivial
  · exact htop.stands o
  · exact hstands

theorem roles_cons_some {text : Text} {b : β} {rest : List (Text × β)} {R : List (Role × β)}
    (h : roles o ((text, b) :: rest) = some R) :
    ∃ r R', roleOf o text = some r ∧ roles (r.next o) rest = some R' ∧ R = (r, b) :: R' := by
  rw [roles] at h
  split at h
  · cases h
  · rename_i r hr
    obtain ⟨R', hR', rfl⟩ := Option.map_eq_some_iff.mp h
    exact ⟨r, R', hr, hR', rfl⟩

theorem roles_cons_of {text : Text} {b : β} {r : Role} (h : roleOf o text = some r)
    (rest : List (Text × β)) :
    roles o ((text, b) :: rest) = (roles (r.next o) rest).map ((r, b) :: ·) := by
  rw [roles, h]

theorem roles_map (f : α → β) (l : List (Text × α)) :
    roles o (l.map fun x => (x.1, f x.2)) = (roles o l).map (List.map fun x => (x.1, f x.2)) := by
  induction l generalizing o with
  | nil => rfl
  | cons x l ih =>
    obtain ⟨text, a⟩ := x
    rw [List.map_cons, roles, roles]
    cases roleOf o text with
    | none => rfl
    | some r =>
      dsimp only
      rw [ih, Option.map_map, Option.map_map]
      rfl

theorem roles_snd {l : List (Text × β)} {R : List (Role × β)} (h : roles o l = some R) :
    R.map Prod.snd = l.map Prod.snd := by
  induction l generalizing o R with
  | nil =>
    cases h
    rfl
  | cons x l ih =>
    obtain ⟨r, R', -, hR', rfl⟩ := roles_cons_some h
    rw [List.map_cons, List.map_cons, ih hR']

theorem roles_follows {l : List (Text × β)} {R : List (Role × β)} (h : roles o l = some R) :
    Follows o (R.map Prod.fst) := by
  induction l generalizing o R with
  | nil =>
    cases h
    trivial
  | cons x l ih =>
    obtain ⟨r, R', hr, hR', rfl⟩ := roles_cons_some h
    exact ⟨roleOf_stands hr, ih hR'⟩

end Roles

/-- The statements of a parsed file: together they are its lines, and their roles are those of
their texts. -/
structure Reads (parsed : ParsedFile) (R : Statements) : Prop where
  parsed_eq : parsed = assembled parsed.lines parsed.endsWithNewline R.items
  lines_eq : parsed.lines = (R.map Prod.snd).flatMap Group.raw
  laid : Laid 0 (R.map Prod.snd)
  roles_eq : roles .none (R.map fun x => (x.2.text, x.2)) = some R

theorem exists_reads {path content : Text} {parsed : ParsedFile}
    (h : parse path content = .ok parsed) : ∃ R, Reads parsed R := by
  obtain ⟨logical, items, hlogical, hitems, rfl⟩ := parse_eq_ok_iff.mp h
  obtain ⟨groups, hgroups, hlines, hlaid⟩ := (logicalFrom_groups path _ 0).1 logical hlogical
  have hspans : groups.map (fun g => (g.text, g.span)) =
      (groups.map fun g => (g.text, g)).map fun x => (x.1, x.2.span) := by
    rw [List.map_map]
    rfl
  rw [hgroups, hspans, roles_map] at hitems
  obtain ⟨R, hR, rfl⟩ := Option.map_eq_some_iff.mp hitems
  have hsnd : R.map Prod.snd = groups := by
    rw [roles_snd hR, List.map_map]
    exact List.map_id _
  refine ⟨R, rfl, ?_, ?_, ?_⟩
  · rw [hsnd]
    exact hlines
  · rw [hsnd]
    exact hlaid
  · have htexts : R.map (fun x => (x.2.text, x.2)) = groups.map fun g => (g.text, g) := by
      rw [← hsnd, List.map_map]
      rfl
    rw [htexts]
    exact hR

theorem Reads.blocks_eq (h : Reads parsed R) : parsed.blocks = (collect R.items).2 := by
  rw [h.parsed_eq]
  rfl

theorem Reads.selections_eq (h : Reads parsed R) :
    parsed.selections = R.items.filterMap Role.asSelection := by
  rw [h.parsed_eq]
  rfl

theorem Reads.follows {parsed : ParsedFile} {R : Statements} (h : Reads parsed R) :
    Follows .none R.roles :=
  roles_follows h.roles_eq

theorem Reads.meaning {parsed : ParsedFile} {R : Statements} (h : Reads parsed R) :
    parsed.meaning = meaningOf R.roles := by
  have hfst : R.items.map Prod.fst = R.roles := by
    rw [Statements.items, List.map_map]
    rfl
  rw [h.parsed_eq, meaning_assembled, hfst]

section Edited

variable (managed : List Text)

def HeaderStays (iface method : Text) (inherits : Option Text) (post : List Role) : Prop :=
  iface ∉ managed ∨ method = "manual".toList ∧ inherits = none ∧ (blocksOf post).1 = []

instance (iface method : Text) (inherits : Option Text) (post : List Role) :
    Decidable (HeaderStays managed iface method inherits post) :=
  inferInstanceAs (Decidable (_ ∨ _))

def pieceFor (r : Role) (post : List Role) (raw : List Text) : List Text :=
  match r with
  | .header iface family method inherits =>
    if HeaderStays managed iface method inherits post then raw else [manualHeader iface family]
  | .option iface .. => if iface ∈ managed then [] else raw
  | .selection keyword names =>
    if ∃ n ∈ names, n ∈ managed then
      if names.filter (· ∉ managed) = [] then []
      else [selectionText keyword (names.filter (· ∉ managed))]
    else raw
  | _ => raw

def editedLines : Statements → List Text
  | [] => []
  | (r, g) :: post => pieceFor managed r (Statements.roles post) g.raw ++ editedLines post

end Edited

section Positions

variable {M : Type} {env : Env M} {path : Text} {managed : List Text} {ch : Changes}
  {parsed : ParsedFile} {pre post : Statements} {r : Role} {g : Group} {i : ℕ}

open Statements

theorem follows_header {o : Open} {iface family method : Text} {inherits : Option Text}
    (h : Follows o (pre ++ (.header iface family method inherits, g) :: post : Statements).roles) :
    Follows (.iface iface) post.roles := by
  rw [Statements.roles, List.map_append] at h
  obtain ⟨-, -, hrest⟩ := follows_append.mp h
  exact hrest

theorem rewritten_blockAt_iff {iface family method : Text} {inherits : Option Text} {lines : Span} :
    Rewritten managed (blockAt iface family method inherits lines post) ↔
      ¬ HeaderStays managed iface method inherits post.roles := by
  have hoptions : (collect post.items).1.flatMap (·.lines.lines) = [] ↔
      (blocksOf post.roles).1 = [] := by
    have hmap := (collect_meaning post.items).1
    have hfst : post.items.map Prod.fst = post.roles := by
      rw [items, List.map_map]
      rfl
    rw [hfst] at hmap
    rw [← hmap, List.map_eq_nil_iff, List.flatMap_eq_nil_iff]
    constructor
    · intro h
      apply List.eq_nil_iff_forall_not_mem.mpr
      intro o ho
      have hnil := h o ho
      rw [Span.lines] at hnil
      cases hnil
    · intro h
      rw [h]
      intro o ho
      exact absurd ho List.not_mem_nil
  rw [Rewritten, InterfaceBlock.Settled, HeaderStays, not_or, not_not, blockAt]
  dsimp only
  rw [hoptions]

theorem removed_iff (hR : Reads parsed (pre ++ (r, g) :: post))
    (hch : planChanges env path managed parsed = .ok ch) (hi : i ∈ g.span.lines) :
    i ∈ ch.removals ↔
      (∃ iface family method inherits, r = .header iface family method inherits ∧
        ¬ HeaderStays managed iface method inherits post.roles ∧ i ∈ g.span.more) ∨
      (∃ iface key values, r = .option iface key values ∧ iface ∈ managed) ∨
      ∃ keyword names, r = .selection keyword names ∧ (∃ n ∈ names, n ∈ managed) ∧
        (i ∈ g.span.more ∨ names.filter (· ∉ managed) = [] ∧ i = g.span.first) := by
  have hapart := apart_of_laid hR.laid
  rw [(planChanges_spec hch).2 i, hR.blocks_eq, hR.selections_eq, ← or_assoc]
  refine or_congr ⟨?_, ?_⟩ ⟨?_, ?_⟩
  · rintro ⟨b, hb, hrew, hmem⟩
    obtain ⟨pre', iface, family, method, inherits, g', post', he, rfl⟩ := mem_blocks.mp hb
    rcases hmem with hmore | hoption
    · -- the line is one of a header: this statement is that header
      obtain ⟨rfl, hx, rfl⟩ := hapart.split_unique he hi (List.mem_cons_of_mem _ hmore)
      cases hx
      exact .inl ⟨_, _, _, _, rfl, rewritten_blockAt_iff.mp hrew, hmore⟩
    · -- the line is one of an option: this statement is that option
      obtain ⟨o, ho, hio⟩ := List.mem_flatMap.mp hoption
      have hfollows := hR.follows
      rw [he] at hfollows
      obtain ⟨x, hx, hrole, hspan⟩ := mem_options (follows_header hfollows) ho
      have hxi : i ∈ x.2.span.lines := by
        rw [hspan]
        exact hio
      have hxmem : x ∈ pre ++ (r, g) :: post := by
        rw [he]
        exact List.mem_append_right _ (List.mem_cons_of_mem _ hx)
      obtain rfl := hapart.eq_of_mem hxmem hi hxi
      exact .inr ⟨_, _, _, hrole, hrew.1⟩
  · rintro (⟨iface, family, method, inherits, rfl, hstays, hmore⟩ | ⟨iface, key, values, rfl, hm⟩)
    · exact ⟨_, mem_blocks.mpr ⟨pre, _, _, _, _, g, post, rfl, rfl⟩,
        rewritten_blockAt_iff.mpr hstays, .inl hmore⟩
    · rcases option_mem hR.follows (List.mem_append_right _ (List.mem_cons_self ..)) with
        ⟨hopen, -⟩ | ⟨b, hb, rfl, hlines⟩
      · cases hopen
      · refine ⟨b, hb, ⟨hm, ?_⟩, .inr (hlines i hi)⟩
        intro hsettled
        have hmem := hlines i hi
        rw [hsettled.2.2] at hmem
        exact absurd hmem List.not_mem_nil
  · rintro ⟨s, hs, hn, hmem⟩
    obtain ⟨g', hg', hspan⟩ := mem_selections.mp hs
    rw [hspan] at hmem
    have hi' : i ∈ g'.span.lines := by
      rcases hmem with hmore | ⟨-, rfl⟩
      · exact List.mem_cons_of_mem _ hmore
      · exact List.mem_cons_self ..
    cases hapart.eq_of_mem hg' hi hi'
    exact ⟨_, _, rfl, hn, hmem⟩
  · rintro ⟨keyword, names, rfl, hn, hmem⟩
    exact ⟨⟨keyword, names, g.span⟩,
      mem_selections.mpr ⟨g, List.mem_append_right _ (List.mem_cons_self ..), rfl⟩, hn, hmem⟩

theorem replaced_iff (hR : Reads parsed (pre ++ (r, g) :: post))
    (hch : planChanges env path managed parsed = .ok ch) (hi : i ∈ g.span.lines) {text : Text} :
    (i, text) ∈ ch.replacements ↔
      (∃ iface family method inherits, r = .header iface family method inherits ∧
        ¬ HeaderStays managed iface method inherits post.roles ∧ i = g.span.first ∧
        text = manualHeader iface family) ∨
      ∃ keyword names, r = .selection keyword names ∧ (∃ n ∈ names, n ∈ managed) ∧
        names.filter (· ∉ managed) ≠ [] ∧ i = g.span.first ∧
        text = selectionText keyword (names.filter (· ∉ managed)) := by
  have hapart := apart_of_laid hR.laid
  rw [(planChanges_spec hch).1 (i, text), hR.blocks_eq, hR.selections_eq]
  refine or_congr ⟨?_, ?_⟩ ⟨?_, ?_⟩
  · rintro ⟨b, hb, hrew, hx⟩
    obtain ⟨pre', iface, family, method, inherits, g', post', he, rfl⟩ := mem_blocks.mp hb
    obtain ⟨hfirst, rfl⟩ := Prod.mk.inj hx
    obtain ⟨rfl, hpos, rfl⟩ := hapart.split_unique he (hfirst ▸ hi) (List.mem_cons_self ..)
    cases hpos
    exact ⟨_, _, _, _, rfl, rewritten_blockAt_iff.mp hrew, hfirst, rfl⟩
  · rintro ⟨iface, family, method, inherits, rfl, hstays, rfl, rfl⟩
    exact ⟨_, mem_blocks.mpr ⟨pre, _, _, _, _, g, post, rfl, rfl⟩,
      rewritten_blockAt_iff.mpr hstays, rfl⟩
  · rintro ⟨s, hs, hn, hkept, hx⟩
    obtain ⟨g', hg', hspan⟩ := mem_selections.mp hs
    obtain ⟨rfl, rfl⟩ := Prod.mk.inj hx
    rw [hspan] at hi
    cases hapart.eq_of_mem hg' hi (List.mem_cons_self ..)
    exact ⟨_, _, rfl, hn, hkept, congrArg Span.first hspan, rfl⟩
  · rintro ⟨keyword, names, rfl, hn, hkept, rfl, rfl⟩
    exact ⟨⟨keyword, names, g.span⟩,
      mem_selections.mpr ⟨g, List.mem_append_right _ (List.mem_cons_self ..), rfl⟩, hn, hkept, rfl⟩

theorem laid_mem {j : ℕ} {groups : List Group} (h : Laid j groups) (hg : g ∈ groups) :
    g.raw.length = g.span.lines.length ∧ logicalTexts g.raw = some [g.text] := by
  induction groups generalizing j with
  | nil => exact absurd hg List.not_mem_nil
  | cons g' groups ih =>
    obtain ⟨hspan, htext, hrest⟩ := h
    rcases List.mem_cons.mp hg with rfl | hg
    · rw [hspan, List.length_range']
      exact ⟨rfl, htext⟩
    · exact ih hrest hg

theorem lookup_of_unique {l : List (ℕ × Text)} {k : ℕ} {t : Text} (h : (k, t) ∈ l)
    (hu : ∀ t', (k, t') ∈ l → t' = t) : l.lookup k = some t := by
  cases hl : l.lookup k with
  | none =>
    have hne := List.lookup_eq_none_iff.mp hl (k, t) h
    simp at hne
  | some t' =>
    obtain ⟨l₁, l₂, rfl, -⟩ := List.lookup_eq_some_iff.mp hl
    rw [hu t' (by simp)]

theorem lookup_of_absent {l : List (ℕ × Text)} {k : ℕ} (h : ∀ t, (k, t) ∉ l) :
    l.lookup k = none := by
  rw [List.lookup_eq_none_iff]
  rintro ⟨k', t⟩ hx
  have hne : k ≠ k' := by
    rintro rfl
    exact h t hx
  simpa using hne

theorem piece_eq (hR : Reads parsed (pre ++ (r, g) :: post))
    (hch : planChanges env path managed parsed = .ok ch) :
    g.piece ch = pieceFor managed r post.roles g.raw := by
  have hlen : g.raw.length = g.span.lines.length :=
    (laid_mem hR.laid (by simp)).1
  have hfirst : g.span.first ∈ g.span.lines := List.mem_cons_self ..
  have hmore {i : ℕ} (h : i ∈ g.span.more) : i ∈ g.span.lines := List.mem_cons_of_mem _ h
  -- the first line of a span is not one of the others
  have hnodup : g.span.first ∉ g.span.more := by
    have hspan := (List.nodup_flatMap.mp (apart_of_laid hR.laid)).1 (r, g) (by simp)
    exact (List.nodup_cons.mp hspan).1
  have hkept (hrem : ∀ i ∈ g.span.lines, i ∉ ch.removals)
      (hrep : ∀ i ∈ g.span.lines, ∀ text, (i, text) ∉ ch.replacements) : g.piece ch = g.raw :=
    piece_kept hlen hrem fun i hi => lookup_of_absent (hrep i hi)
  cases r with
  | header iface family method inherits =>
    rw [pieceFor]
    split
    · rename_i hstays
      apply hkept
      · intro i hi hmem
        simp [removed_iff hR hch hi, hstays] at hmem
      · intro i hi text hmem
        simp [replaced_iff hR hch hi, hstays] at hmem
    · rename_i hstays
      apply piece_written hlen
      · intro hmem
        simp [removed_iff hR hch hfirst, hnodup] at hmem
      · apply lookup_of_unique
        · rw [replaced_iff hR hch hfirst]
          exact .inl ⟨_, _, _, _, rfl, hstays, rfl, rfl⟩
        · intro text hmem
          rw [replaced_iff hR hch hfirst] at hmem
          rcases hmem with ⟨_, _, _, _, he, -, -, rfl⟩ | ⟨_, _, he, -⟩
          · cases he
            rfl
          · cases he
      · intro i hi
        rw [removed_iff hR hch (hmore hi)]
        exact .inl ⟨_, _, _, _, rfl, hstays, hi⟩
  | option iface key values =>
    rw [pieceFor]
    split
    · rename_i hm
      apply piece_dropped
      intro i hi
      rw [removed_iff hR hch hi]
      exact .inr (.inl ⟨_, _, _, rfl, hm⟩)
    · rename_i hm
      apply hkept
      · intro i hi hmem
        simp [removed_iff hR hch hi, hm] at hmem
      · intro i hi text hmem
        simp [replaced_iff hR hch hi] at hmem
  | selection keyword names =>
    rw [pieceFor]
    split
    · rename_i hn
      split
      · rename_i hempty
        apply piece_dropped
        intro i hi
        rw [removed_iff hR hch hi]
        refine .inr (.inr ⟨_, _, rfl, hn, ?_⟩)
        rcases List.mem_cons.mp hi with hi | hi
        · exact .inr ⟨hempty, hi⟩
        · exact .inl hi
      · rename_i hkeeps
        apply piece_written hlen
        · intro hmem
          rw [removed_iff hR hch hfirst] at hmem
          rcases hmem with ⟨_, _, _, _, he, -⟩ | ⟨_, _, _, he, -⟩ | ⟨_, _, he, -, hin⟩
          · cases he
          · cases he
          · cases he
            rcases hin with hin | ⟨hnil, -⟩
            · exact hnodup hin
            · exact hkeeps hnil
        · apply lookup_of_unique
          · rw [replaced_iff hR hch hfirst]
            exact .inr ⟨_, _, rfl, hn, hkeeps, rfl, rfl⟩
          · intro text hmem
            rw [replaced_iff hR hch hfirst] at hmem
            rcases hmem with ⟨_, _, _, _, he, -⟩ | ⟨_, _, he, -, -, -, rfl⟩
            · cases he
            · cases he
              rfl
        · intro i hi
          rw [removed_iff hR hch (hmore hi)]
          exact .inr (.inr ⟨_, _, rfl, hn, .inl hi⟩)
    · rename_i hn
      apply hkept
      · intro i hi hmem
        rw [removed_iff hR hch hi] at hmem
        rcases hmem with ⟨_, _, _, _, he, -⟩ | ⟨_, _, _, he, -⟩ | ⟨_, _, he, hin, -⟩
        · cases he
        · cases he
        · cases he
          exact hn hin
      · intro i hi text hmem
        rw [replaced_iff hR hch hi] at hmem
        rcases hmem with ⟨_, _, _, _, he, -⟩ | ⟨_, _, he, hin, -⟩
        · cases he
        · cases he
          exact hn hin
  | _ =>
    apply hkept
    · intro i hi hmem
      simp [removed_iff hR hch hi] at hmem
    · intro i hi text hmem
      simp [replaced_iff hR hch hi] at hmem

theorem newLines_eq {R : Statements} (hR : Reads parsed R)
    (hch : planChanges env path managed parsed = .ok ch) :
    newLines ch parsed.lines = editedLines managed R := by
  have hpieces (pre post : Statements) (he : R = pre ++ post) :
      (post.map Prod.snd).flatMap (Group.piece ch) = editedLines managed post := by
    induction post generalizing pre with
    | nil => rfl
    | cons x post ih =>
      have htail := ih (pre ++ [x]) (by rw [he]; simp)
      have hhead : x.2.piece ch = pieceFor managed x.1 (Statements.roles post) x.2.raw := by
        rw [he] at hR
        exact piece_eq hR hch
      rw [List.map_cons, List.flatMap_cons, hhead, htail]
      rfl
  rw [newLines, hR.lines_eq, ← hpieces [] R rfl]
  exact newLines_groups hR.laid

end Positions

end LandscapeKit.Hostnet
