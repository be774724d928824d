import LandscapeKit.HostnetReparse

/-!
Unmanaging interfaces and the meaning of the files: a file whose lines are edited statement by
statement means what it should, unless the edit leaves a line with a backslash at its end or
takes away what ends the last continuation.
-/

namespace LandscapeKit.Hostnet

open Lines

section Pieces

variable {managed : List Text} {o o' : Open} {r : Role} {g : Group} {post : List Role}

def Role.Continues (managed : List Text) : Role → Prop
  | .selection _ names => (∃ n ∈ names, n ∈ managed) ∧
      ∃ last, (names.filter (· ∉ managed)).getLast? = some last ∧ last.getLast? = some '\\'
  | _ => False

theorem selectionText_getLast {keyword name : Text} {names : List Text} (hk : IsWord keyword)
    (hn : ∀ n ∈ names, IsWord n) (hname : IsWord name) :
    (selectionText keyword (names ++ [name])).getLast? = name.getLast? := by
  obtain ⟨front, hfront, -, -⟩ := selectionText_concat name hk hn
  have hlast : (' ' :: name).getLast? = name.getLast? :=
    List.getLast?_append_of_ne_nil [' '] hname.1
  rw [hfront, List.getLast?_append_of_ne_nil _ (List.cons_ne_nil _ _), hlast]

theorem stripCarriageReturn_of_ne {line : Text} (h : line.getLast? ≠ some '\r') :
    stripCarriageReturn line = line := if_neg h

theorem logicalTexts_single {line : Text} (hr : line.getLast? ≠ some '\r')
    (hb : line.getLast? ≠ some '\\') : logicalTexts [line] = some [line] := by
  rw [logicalTexts, List.map_singleton, stripCarriageReturn_of_ne hr]
  exact joined_single hb

theorem manualHeader_getLast (iface family : Text) :
    (manualHeader iface family).getLast? = some 'l' := by
  have happend (a b : Text) (hb : b.getLast? = some 'l') : (a ++ b).getLast? = some 'l' := by
    rw [List.getLast?_append, hb]
    rfl
  exact happend _ _ (by decide)

/-- What becomes of one statement: it stays, it goes, or it is written anew on one line, which
is then read as the unmanaged statement unless it goes on in the next line. -/
inductive PieceCase (managed : List Text) (o : Open) (r : Role) (raw piece : List Text) : Prop
  | stays : ¬ r.Continues managed → piece = raw → r.unmanage managed = some r →
      PieceCase managed o r raw piece
  | goes : ¬ r.Continues managed → piece = [] → r.unmanage managed = none →
      (r.next o = o ∨ r.next o = .none) → PieceCase managed o r raw piece
  | written (r' : Role) (line : Text) : ¬ r.Continues managed → piece = [line] → line ≠ [] →
      r.unmanage managed = some r' → r'.TopLevel → (∀ o', roleOf o' line = some r') →
      (∀ o', r'.next o' = r.next o) → logicalTexts [line] = some [line] →
      PieceCase managed o r raw piece
  | continues (keyword : Text) (names kept : List Text) : r.Continues managed →
      r = .selection keyword names → piece = [selectionText keyword kept] →
      r.unmanage managed = some (.selection keyword kept) → SelectionFacts keyword names →
      kept ≠ [] → (∀ n ∈ kept, n ∈ names) →
      (selectionText keyword kept).getLast? = some '\\' → PieceCase managed o r raw piece

theorem pieceCase (managed : List Text) (post : List Role) (hrole : roleOf o g.text = some r) :
    PieceCase managed o r g.raw (pieceFor managed r post g.raw) := by
  cases r with
  | header iface family method inherits =>
    obtain ⟨hi, hf⟩ := roleOf_header hrole
    rw [pieceFor]
    split
    · rename_i hstays
      apply PieceCase.stays id rfl
      rw [Role.unmanage]
      rcases hstays with hm | ⟨rfl, rfl, -⟩
      · exact if_neg hm
      · exact ite_self _
    · rename_i hstays
      have hm : iface ∈ managed := by
        by_contra hm
        exact hstays (.inl hm)
      have hlast := manualHeader_getLast iface family
      refine .written _ _ id rfl ?_ (if_pos hm) trivial (fun o' => roleOf_manualHeader hi hf)
        (fun o' => rfl) (logicalTexts_single ?_ ?_)
      · intro hnil
        rw [hnil] at hlast
        cases hlast
      · rw [hlast]
        decide
      · rw [hlast]
        decide
  | option iface key values =>
    rw [pieceFor]
    split
    · rename_i hm
      exact .goes id rfl (if_pos hm) (.inl rfl)
    · rename_i hm
      exact .stays id rfl (if_neg hm)
  | selection keyword names =>
    have hfacts := roleOf_selection hrole
    rw [pieceFor]
    split
    · rename_i hn
      split
      · rename_i hempty
        refine .goes ?_ rfl ?_ (.inr rfl)
        · rintro ⟨-, last, hlast, -⟩
          rw [hempty] at hlast
          cases hlast
        rw [Role.unmanage, keptSelection, if_pos hempty, Option.map_none]
      · rename_i hkeeps
        have hunmanage : Role.unmanage managed (.selection keyword names) =
            some (.selection keyword (names.filter (· ∉ managed))) := by
          rw [Role.unmanage, keptSelection, if_neg hkeeps, Option.map_some]
        have hsub : ∀ n ∈ names.filter (· ∉ managed), n ∈ names := fun n hn => (List.mem_filter.mp hn).1
        generalize hkept : names.filter (· ∉ managed) = kept at hkeeps hunmanage hsub
        obtain ⟨ks, name, hconcat⟩ := (List.eq_nil_or_concat kept).resolve_left hkeeps
        rw [List.concat_eq_append] at hconcat
        have hword : ∀ n ∈ kept, IsWord n := fun n hn => hfacts.names_word n (hsub n hn)
        have hname : IsWord name := hword name (by rw [hconcat]; simp)
        have hlast : (selectionText keyword kept).getLast? = name.getLast? := by
          rw [hconcat]
          apply selectionText_getLast hfacts.word _ hname
          intro n hn
          exact hword n (by rw [hconcat]; exact List.mem_append_left _ hn)
        have hnameLast : ∃ c, name.getLast? = some c := Option.ne_none_iff_exists'.mp
          (fun hnone => hname.1 (List.getLast?_eq_none_iff.mp hnone))
        by_cases hb : name.getLast? = some '\\'
        · refine .continues keyword names kept ⟨hn, name, ?_, hb⟩ rfl rfl hunmanage hfacts hkeeps
            hsub (hlast.trans hb)
          rw [hkept, hconcat, List.getLast?_concat]
        · refine .written _ _ ?_ rfl ?_ hunmanage trivial (hfacts.roleOf_text hkeeps hsub)
            (fun o' => rfl) (logicalTexts_single ?_ ?_)
          · rintro ⟨-, last, hgetLast, hback⟩
            rw [hkept, hconcat, List.getLast?_concat] at hgetLast
            obtain rfl := Option.some.inj hgetLast
            exact hb hback
          · intro hnil
            rw [hnil] at hlast
            exact hname.1 (List.getLast?_eq_none_iff.mp hlast.symm)
          · rw [hlast]
            intro hcr
            have hws := hname.2 '\r' (List.mem_of_getLast? hcr)
            exact absurd hws (by decide)
          · rw [hlast]
            exact hb
    · rename_i hn
      have hnot : ¬ Role.Continues managed (.selection keyword names) := fun hc => hn hc.1
      apply PieceCase.stays hnot rfl
      have hfilter : names.filter (· ∉ managed) = names := by
        apply List.filter_eq_self.mpr
        intro n hmem
        exact decide_eq_true fun hm => hn ⟨n, hmem, hm⟩
      rw [Role.unmanage, keptSelection, hfilter, if_neg hfacts.names_ne, Option.map_some]
  | _ => exact .stays id rfl rfl

end Pieces

section Files

variable {managed : List Text} {o o' : Open} {R : Statements}

structure ReadFrom (o : Open) (R : Statements) : Prop where
  roles_eq : roles o (R.map fun x => (x.2.text, x.2)) = some R
  closed : ∀ x ∈ R, logicalTexts x.2.raw = some [x.2.text]

theorem ReadFrom.cons {r : Role} {g : Group} (h : ReadFrom o ((r, g) :: R)) :
    roleOf o g.text = some r ∧ logicalTexts g.raw = some [g.text] ∧ ReadFrom (r.next o) R := by
  obtain ⟨r', R', hrole, hrest, he⟩ := roles_cons_some h.roles_eq
  obtain ⟨hx, rfl⟩ := List.cons.inj he
  cases hx
  exact ⟨hrole, h.closed (r, g) (List.mem_cons_self ..), hrest,
    fun x hx => h.closed x (List.mem_cons_of_mem _ hx)⟩

theorem Reads.readFrom {parsed : ParsedFile} (h : Reads parsed R) : ReadFrom .none R :=
  ⟨h.roles_eq, fun _ hx => (laid_mem h.laid (List.mem_map_of_mem hx)).2⟩

def Open.Covers (o o' : Open) : Prop := o = .none ∨ o = o'

theorem Open.Covers.next {text : Text} {r : Role} (h : o.Covers o') (hrole : roleOf o text = some r) :
    roleOf o' text = some r ∧ (r.next o).Covers (r.next o') := by
  rcases roleOf_cases hrole with ⟨hany, hr⟩ | ⟨hne, -, -⟩
  · refine ⟨hany o', ?_⟩
    rcases hr with rfl | htop
    · exact h
    · exact .inr (htop.next_eq o o')
  · rcases h with rfl | rfl
    · exact absurd rfl hne
    · exact ⟨hrole, .inr rfl⟩

theorem roles_units_cons {t : Text} {r : Role} {ts : List Text} (h : roleOf o t = some r) :
    roles o ((t :: ts).map fun t => (t, ())) =
      (roles (r.next o) (ts.map fun t => (t, ()))).map ((r, ()) :: ·) :=
  roles_cons_of h _

theorem editedLines_cons (r : Role) (g : Group) (R : Statements) :
    editedLines managed ((r, g) :: R) =
      pieceFor managed r (Statements.roles R) g.raw ++ editedLines managed R := rfl

theorem edited_roles (hR : ReadFrom o R) (hclean : ∀ x ∈ R, ¬ x.1.Continues managed)
    (ho : o.Covers o') :
    ∃ ts R', logicalTexts (editedLines managed R) = some ts ∧
      roles o' (ts.map fun t => (t, ())) = some R' ∧
      R'.map Prod.fst = R.roles.filterMap (Role.unmanage managed) := by
  induction R generalizing o o' with
  | nil => exact ⟨[], [], rfl, rfl, rfl⟩
  | cons x R ih =>
    obtain ⟨r, g⟩ := x
    obtain ⟨hrole, hclosed, hrest⟩ := hR.cons
    have hcleanR : ∀ x ∈ R, ¬ x.1.Continues managed :=
      fun x hx => hclean x (List.mem_cons_of_mem _ hx)
    have hcons : Statements.roles ((r, g) :: R) = r :: Statements.roles R := rfl
    rw [editedLines_cons, hcons]
    rcases pieceCase managed (Statements.roles R) hrole with
      ⟨-, hpiece, hu⟩ | ⟨-, hpiece, hu, hnext⟩ |
      ⟨r', line, -, hpiece, -, hu, -, hline, hnext, htext⟩ | ⟨_, _, _, hcont, -⟩
    · -- kept: the line is read as before
      obtain ⟨hrole', hcovers⟩ := ho.next hrole
      obtain ⟨ts, R', hts, hR', hfst⟩ := ih hrest hcleanR hcovers
      refine ⟨g.text :: ts, (r, ()) :: R', ?_, ?_, ?_⟩
      · rw [hpiece, logicalTexts_append hclosed, hts]
        rfl
      · rw [roles_units_cons hrole', hR', Option.map_some]
      · rw [List.map_cons, hfst, List.filterMap_cons_some hu]
    · -- dropped: what follows was read with the same stanza open, or with none
      have hcovers : (r.next o).Covers o' := by
        rcases hnext with hnext | hnext
        · rw [hnext]
          exact ho
        · exact .inl hnext
      obtain ⟨ts, R', hts, hR', hfst⟩ := ih hrest hcleanR hcovers
      refine ⟨ts, R', ?_, hR', ?_⟩
      · rw [hpiece, List.nil_append, hts]
      · rw [hfst, List.filterMap_cons_none hu]
    · obtain ⟨ts, R', hts, hR', hfst⟩ := ih hrest hcleanR (.inr (hnext o').symm)
      refine ⟨line :: ts, (r', ()) :: R', ?_, ?_, ?_⟩
      · rw [hpiece, logicalTexts_append htext, hts]
        rfl
      · rw [roles_units_cons (hline o'), hR', Option.map_some]
      · rw [List.map_cons, hfst, List.filterMap_cons_some hu]
    · exact (hclean (r, g) (List.mem_cons_self ..) hcont).elim

theorem logicalTexts_continued {line : Text} {rest ts : List Text}
    (hline : line.getLast? = some '\\') (h : logicalTexts (line :: rest) = some ts) :
    ∃ w s v xs ys, line = w ++ s ∧ s ≠ [] ∧ (∀ c ∈ s, c = '\\') ∧ ts = (w ++ v) :: xs ∧
      logicalTexts rest = some ys ∧ (v = [] ∨ ys.find? (· ≠ []) = some v) := by
  have hstrip : stripCarriageReturn line = line := by
    apply stripCarriageReturn_of_ne
    rw [hline]
    decide
  rw [logicalTexts, List.map_cons, hstrip, joined_cons, Option.getD_none, List.nil_append,
    if_pos hline] at h
  have hrest : rest.map stripCarriageReturn ≠ [] := by
    intro hnil
    rw [hnil] at h
    cases h
  obtain ⟨x, xs, rfl⟩ := List.exists_cons_of_ne_nil (joined_ne_nil hrest h)
  rw [← List.append_nil line.dropLast] at h
  obtain ⟨w, s, v, ys, hw, hs, rfl, hys, hv⟩ := joined_absorb h
  rw [joined_some_nil hrest] at hys
  obtain ⟨line', rfl⟩ := List.getLast?_eq_some_iff.mp hline
  rw [List.dropLast_concat] at hw
  refine ⟨w, s ++ ['\\'], v, xs, ys, by rw [hw, List.append_assoc], by simp, ?_, rfl, hys, hv⟩
  intro c hc
  rcases List.mem_append.mp hc with hc | hc
  · exact hs c hc
  · exact List.mem_singleton.mp hc

theorem edited_lead (hR : ReadFrom .none R) {ys : List Text} {v : Text}
    (hys : logicalTexts (editedLines managed R) = some ys) (hv : ys.find? (· ≠ []) = some v) :
    Lead v := by
  induction R generalizing ys v with
  | nil =>
    cases hys
    cases hv
  | cons x R ih =>
    obtain ⟨r, g⟩ := x
    obtain ⟨hrole, hclosed, hrest⟩ := hR.cons
    rw [editedLines_cons] at hys
    rcases pieceCase managed (Statements.roles R) hrole with
      ⟨-, hpiece, -⟩ | ⟨-, hpiece, -, hnext⟩ |
      ⟨r', line, -, hpiece, hne, -, -, hline, -, htext⟩ |
      ⟨keyword, names, kept, -, rfl, hpiece, -, hfacts, hkept, hsub, hlast⟩
    · rw [hpiece, logicalTexts_append hclosed] at hys
      obtain ⟨ys', hys', rfl⟩ := Option.map_eq_some_iff.mp hys
      by_cases hg : g.text = []
      · -- an empty line leaves everything as it was
        rw [hg] at hv hrole
        obtain rfl := Option.some.inj hrole
        exact ih hrest hys' (by simpa using hv)
      · obtain rfl : g.text = v := by simpa [hg] using hv
        exact roleOf_lead hrole
    · have hopen : r.next .none = .none := by
        rcases hnext with hnext | hnext <;> exact hnext
      rw [hpiece, List.nil_append] at hys
      rw [hopen] at hrest
      exact ih hrest hys hv
    · rw [hpiece, logicalTexts_append htext] at hys
      obtain ⟨ys', -, rfl⟩ := Option.map_eq_some_iff.mp hys
      obtain rfl : line = v := by simpa [hne] using hv
      exact roleOf_lead (hline .none)
    · rw [hpiece] at hys
      obtain ⟨w, s, v', xs, ys', htext, hs, hmarks, rfl, hys', hv'⟩ := logicalTexts_continued hlast hys
      have hlead : Lead v' := by
        rcases hv' with rfl | hv'
        · exact lead_of_seps (by simp)
        · exact ih hrest hys' hv'
      obtain ⟨tail, rfl, -⟩ := hfacts.absorbed hkept hsub htext hs hmarks hlead
      obtain ⟨c, rest, rfl, hc, -, hne⟩ := topLevel_head hfacts.topLevel
      obtain rfl : (c :: rest) ++ ' ' :: tail ++ v' = v := by simpa using hv
      have hnil : ∀ x ∈ ([] : Text), isWhitespace x = true := by simp
      exact lead_of_first hnil hc hne

theorem edited_differs (hR : ReadFrom o R) (hcont : ∃ x ∈ R, x.1.Continues managed)
    (ho : o.Covers o') {ts : List Text} {R' : List (Role × Unit)}
    (hts : logicalTexts (editedLines managed R) = some ts)
    (hR' : roles o' (ts.map fun t => (t, ())) = some R') :
    (R'.map Prod.fst).filterMap Role.selection? ≠
      (R.roles.filterMap (Role.unmanage managed)).filterMap Role.selection? := by
  induction R generalizing o o' ts R' with
  | nil =>
    obtain ⟨x, hx, -⟩ := hcont
    exact absurd hx List.not_mem_nil
  | cons x R ih =>
    obtain ⟨r, g⟩ := x
    obtain ⟨hrole, hclosed, hrest⟩ := hR.cons
    have hcons : Statements.roles ((r, g) :: R) = r :: Statements.roles R := rfl
    rw [editedLines_cons] at hts
    rw [hcons]
    have htail (h : ¬ r.Continues managed) : ∃ x ∈ R, x.1.Continues managed := by
      obtain ⟨x, hx, hxc⟩ := hcont
      rcases List.mem_cons.mp hx with rfl | hx
      · exact (h hxc).elim
      · exact ⟨x, hx, hxc⟩
    -- a first line with the role it should have leaves the difference to the others
    have hhead {t : Text} {r' : Role} {ts' : List Text} {o₁ : Open} (hc : ¬ r.Continues managed)
        (ht : roleOf o' t = some r') (hu : r.unmanage managed = some r') (hts' : ts = t :: ts')
        (hrest' : logicalTexts (editedLines managed R) = some ts') (ho₁ : o₁ = r'.next o')
        (hcovers : (r.next o).Covers o₁) :
        (R'.map Prod.fst).filterMap Role.selection? ≠
          ((r :: Statements.roles R).filterMap (Role.unmanage managed)).filterMap Role.selection? := by
      rw [hts', roles_units_cons ht] at hR'
      obtain ⟨R₁, hR₁, rfl⟩ := Option.map_eq_some_iff.mp hR'
      rw [← ho₁] at hR₁
      have hdiff := ih hrest (htail hc) hcovers hrest' hR₁
      rw [List.map_cons, List.filterMap_cons_some hu]
      intro he
      cases hsel : r'.selection? with
      | none =>
        rw [List.filterMap_cons_none hsel, List.filterMap_cons_none hsel] at he
        exact hdiff he
      | some s =>
        rw [List.filterMap_cons_some hsel, List.filterMap_cons_some hsel] at he
        exact hdiff (List.cons.inj he).2
    rcases pieceCase managed (Statements.roles R) hrole with
      ⟨hc, hpiece, hu⟩ | ⟨hc, hpiece, hu, hnext⟩ |
      ⟨r', line, hc, hpiece, -, hu, -, hline, hnext, htext⟩ |
      ⟨keyword, names, kept, -, rfl, hpiece, hu, hfacts, hkept, hsub, hlast⟩
    · rw [hpiece, logicalTexts_append hclosed] at hts
      obtain ⟨ts', hts', rfl⟩ := Option.map_eq_some_iff.mp hts
      obtain ⟨hrole', hcovers⟩ := ho.next hrole
      exact hhead hc hrole' hu rfl hts' rfl hcovers
    · rw [hpiece, List.nil_append] at hts
      rw [List.filterMap_cons_none hu]
      have hcovers : (r.next o).Covers o' := by
        rcases hnext with hnext | hnext
        · rw [hnext]
          exact ho
        · exact .inl hnext
      exact ih hrest (htail hc) hcovers hts hR'
    · rw [hpiece, logicalTexts_append htext] at hts
      obtain ⟨ts', hts', rfl⟩ := Option.map_eq_some_iff.mp hts
      exact hhead hc (hline o') hu rfl hts' rfl (.inr (hnext o').symm)
    · -- the statement goes on with what does not lead with a backslash
      rw [hpiece] at hts
      obtain ⟨w, s, v, xs, ys, htext, hs, hmarks, rfl, hys, hv⟩ := logicalTexts_continued hlast hts
      have hlead : Lead v := by
        rcases hv with rfl | hv
        · exact lead_of_seps (by simp)
        · exact edited_lead hrest hys hv
      obtain ⟨tail, rfl, hdiff⟩ := hfacts.absorbed hkept hsub htext hs hmarks hlead
      have hrole₁ : roleOf o' (keyword ++ ' ' :: tail ++ v) =
          topRole keyword (splitWhitespace (tail ++ v)) := by
        rw [List.append_assoc, List.cons_append]
        exact roleOf_keyword hfacts.topLevel hfacts.word _
      rw [hfacts.topRole_eq] at hrole₁
      rw [List.filterMap_cons_some hu]
      by_cases hnil : splitWhitespace (tail ++ v) = []
      · rw [if_pos hnil] at hrole₁
        rw [List.map_cons, roles, hrole₁] at hR'
        cases hR'
      · rw [if_neg hnil] at hrole₁
        rw [roles_units_cons hrole₁] at hR'
        obtain ⟨R₁, -, rfl⟩ := Option.map_eq_some_iff.mp hR'
        intro he
        exact hdiff (Prod.mk.inj (List.cons.inj he).1).2

def Role.Stays (managed : List Text) (post : List Role) : Role → Prop
  | .header iface _ method inherits => HeaderStays managed iface method inherits post
  | .option iface .. => iface ∉ managed
  | .selection _ names => ∀ n ∈ names, n ∉ managed
  | _ => True

/-- A statement the edit takes out: an option of a managed stanza, or a selection of managed
interfaces only. -/
def Role.Dropped (managed : List Text) : Role → Prop
  | .option iface .. => iface ∈ managed
  | .selection _ names => ∀ n ∈ names, n ∈ managed
  | _ => False

theorem pieceFor_stays {r : Role} {post : List Role} {raw : List Text}
    (h : r.Stays managed post) : pieceFor managed r post raw = raw := by
  cases r with
  | header => exact if_pos h
  | option => exact if_neg h
  | selection keyword names =>
    apply if_neg
    rintro ⟨n, hn, hm⟩
    exact h n hn hm
  | _ => rfl

theorem pieceFor_dropped {r : Role} {post : List Role} {raw : List Text} {text : Text}
    (hrole : roleOf o text = some r) (h : r.Dropped managed) : pieceFor managed r post raw = [] := by
  cases r with
  | option => exact if_pos h
  | selection keyword names =>
    obtain ⟨n, rest, rfl⟩ := List.exists_cons_of_ne_nil (roleOf_selection hrole).names_ne
    rw [pieceFor, if_pos ⟨n, List.mem_cons_self .., h n (List.mem_cons_self ..)⟩]
    apply if_pos
    rw [List.filter_eq_nil_iff]
    intro m hm
    simpa using h m hm
  | _ => exact h.elim

theorem dropped_of_pieceFor {r : Role} {post : List Role} {raw : List Text} (hraw : raw ≠ [])
    (h : pieceFor managed r post raw = []) : r.Dropped managed := by
  cases r with
  | header =>
    rw [pieceFor] at h
    split at h
    · exact (hraw h).elim
    · cases h
  | option =>
    rw [pieceFor] at h
    split at h
    · assumption
    · exact (hraw h).elim
  | selection keyword names =>
    rw [pieceFor] at h
    split at h
    · split at h
      · rename_i hfilter
        rw [List.filter_eq_nil_iff] at hfilter
        intro n hn
        simpa using hfilter n hn
      · cases h
    · exact (hraw h).elim
  | _ => exact (hraw h).elim

theorem stays_of_pieceFor {r : Role} {post : List Role} {raw : List Text}
    (h : 2 ≤ (pieceFor managed r post raw).length) : r.Stays managed post := by
  cases r with
  | header =>
    rw [pieceFor] at h
    split at h
    · assumption
    · simp at h
  | option =>
    rw [pieceFor] at h
    split at h
    · simp at h
    · assumption
  | selection keyword names =>
    rw [pieceFor] at h
    split at h
    · split at h <;> simp at h
    · rename_i hnone
      intro n hn hm
      exact hnone ⟨n, hn, hm⟩
  | _ => trivial

/-- The file ends without a newline, and in front of statements that the edit takes out there is
one it leaves, whose last line is empty and only ends a continuation. -/
def CutTail (managed : List Text) (nl : Bool) (R : Statements) : Prop :=
  nl = false ∧ ∃ pre r g post, R = pre ++ (r, g) :: post ∧ (∀ x ∈ post, x.1.Dropped managed) ∧
    r.Stays managed (Statements.roles post) ∧ ∃ raw, g.raw = raw ++ [[]] ∧ raw ≠ []

theorem piece_closed {r : Role} {g : Group} (post : List Role) (hrole : roleOf o g.text = some r)
    (hclosed : logicalTexts g.raw = some [g.text]) (hclean : ¬ r.Continues managed) :
    ∃ ts, logicalTexts (pieceFor managed r post g.raw) = some ts := by
  rcases pieceCase managed post hrole with
    ⟨-, hpiece, -⟩ | ⟨-, hpiece, -⟩ | ⟨r', line, -, hpiece, -, -, -, -, -, htext⟩ | ⟨_, _, _, hcont, -⟩
  · rw [hpiece]
    exact ⟨_, hclosed⟩
  · rw [hpiece]
    exact ⟨[], rfl⟩
  · rw [hpiece]
    exact ⟨_, htext⟩
  · exact (hclean hcont).elim

theorem raw_ne_nil {g : Group} (h : logicalTexts g.raw = some [g.text]) : g.raw ≠ [] := by
  intro hnil
  rw [hnil] at h
  cases h

theorem editedLines_dropped (hR : ReadFrom o R) (h : ∀ x ∈ R, x.1.Dropped managed) :
    editedLines managed R = [] := by
  induction R generalizing o with
  | nil => rfl
  | cons x R ih =>
    obtain ⟨r, g⟩ := x
    obtain ⟨hrole, -, hrest⟩ := hR.cons
    rw [editedLines_cons, pieceFor_dropped hrole (h _ (List.mem_cons_self ..)), List.nil_append]
    exact ih hrest fun x hx => h x (List.mem_cons_of_mem _ hx)

theorem dropped_of_editedLines (hR : ReadFrom o R) (h : editedLines managed R = []) :
    ∀ x ∈ R, x.1.Dropped managed := by
  induction R generalizing o with
  | nil => exact fun x hx => absurd hx List.not_mem_nil
  | cons x R ih =>
    obtain ⟨r, g⟩ := x
    obtain ⟨-, hclosed, hrest⟩ := hR.cons
    obtain ⟨hpiece, htail⟩ := List.append_eq_nil_iff.mp h
    intro x hx
    rcases List.mem_cons.mp hx with rfl | hx
    · exact dropped_of_pieceFor (raw_ne_nil hclosed) hpiece
    · exact ih hrest htail x hx

theorem cut_iff (hR : ReadFrom o R) (hclean : ∀ x ∈ R, ¬ x.1.Continues managed) {nl : Bool} :
    Cut (editedLines managed R) nl ↔ CutTail managed nl R := by
  refine and_congr_right fun _ => ?_
  induction R generalizing o with
  | nil =>
    constructor
    · rintro ⟨L, he, -⟩
      simp [editedLines] at he
    · rintro ⟨pre, r, g, post, he, -⟩
      simp at he
  | cons x R ih =>
    obtain ⟨r, g⟩ := x
    obtain ⟨hrole, hclosed, hrest⟩ := hR.cons
    obtain ⟨ts, hts⟩ := piece_closed (Statements.roles R) hrole hclosed
      (hclean _ (List.mem_cons_self ..))
    have ih' := ih hrest fun x hx => hclean x (List.mem_cons_of_mem _ hx)
    rw [editedLines_cons]
    constructor
    · rintro ⟨L, he, hL, hnone⟩
      by_cases hR0 : editedLines managed R = []
      · -- the last line is one of this statement
        rw [hR0, List.append_nil] at he
        have hstays : r.Stays managed (Statements.roles R) := by
          have hlen : 2 ≤ (pieceFor managed r (Statements.roles R) g.raw).length := by
            rw [he, List.length_append, List.length_singleton]
            have hpos := List.length_pos_iff.mpr hL
            omega
          exact stays_of_pieceFor hlen
        rw [pieceFor_stays hstays] at he
        exact ⟨[], r, g, R, rfl, dropped_of_editedLines hrest hR0, hstays, L, he, hL⟩
      · obtain ⟨E, l, hE⟩ := (List.eq_nil_or_concat _).resolve_left hR0
        rw [List.concat_eq_append] at hE
        rw [hE, ← List.append_assoc] at he
        obtain rfl := List.append_inj_left' he rfl
        obtain rfl := List.singleton_inj.mp (List.append_inj_right' he rfl)
        rw [logicalTexts_append hts] at hnone
        have hEnone := Option.map_eq_none_iff.mp hnone
        have hEne : E ≠ [] := by
          rintro rfl
          cases hEnone
        obtain ⟨pre, r', g', post, rfl, h⟩ := ih'.mp ⟨E, hE, hEne, hEnone⟩
        exact ⟨(r, g) :: pre, r', g', post, rfl, h⟩
    · rintro ⟨pre, r', g', post, he, hdropped, hstays, raw, hraw, hne⟩
      cases pre with
      | nil =>
        obtain ⟨hx, rfl⟩ := List.cons.inj he
        cases hx
        refine ⟨raw, ?_, hne, ?_⟩
        · rw [pieceFor_stays hstays, editedLines_dropped hrest hdropped, List.append_nil, hraw]
        · rw [logicalTexts, hraw, List.map_append] at hclosed
          apply joined_cut _ _ hclosed
          · simpa using hne
          · simp
      | cons x pre =>
        have htail := (List.cons.inj he).2
        obtain ⟨L, hL, hLne, hnone⟩ :=
          ih'.mpr ⟨pre, r', g', post, htail, hdropped, hstays, raw, hraw, hne⟩
        refine ⟨pieceFor managed r (Statements.roles R) g.raw ++ L, ?_, ?_, ?_⟩
        · rw [hL, List.append_assoc]
        · intro hnil
          exact hLne (List.append_eq_nil_iff.mp hnil).2
        · rw [logicalTexts_append hts, hnone, Option.map_none]

end Files

end LandscapeKit.Hostnet
