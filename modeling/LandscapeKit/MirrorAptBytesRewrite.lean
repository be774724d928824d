import LandscapeKit.LibExtremes
import LandscapeKit.MirrorAptBytesRead
import LandscapeKit.MirrorAptLocal

/-!
The rewriting by bytes: every slice it takes is one, so nothing panics, and the text that comes out
is that of the rewriting by characters.
-/

namespace LandscapeKit.Mirror.Bytewise

open Text Utf8 Splice Extremes

variable {pairs : List (Text × Text)} {content : Text}

section Uris

theorem sub_prefix (a b : Text) : sub (a ++ b) 0 (size a) = some a := by
  have h := sub_append [] a b
  rwa [List.nil_append, size_nil, Nat.zero_add] at h

theorem sub_suffix (a b : Text) : sub (a ++ b) (size a) (size (a ++ b)) = some b := by
  have h := sub_append a b []
  rwa [List.append_nil, ← size_append] at h

theorem moveHost_eq (hgood : GoodPairs pairs) (scheme prefixed rest : Text) :
    moveHost scheme prefixed (hostIn rest) (splitPath rest).2 pairs =
      some (pairs.findSome? fun p =>
        if startsAtHost p.1 (candidateOf rest) then
          some (scheme ++ "://".toList ++ prefixed ++ p.2 ++
            (splitPath rest).2.drop (p.1.length - (hostIn rest).length))
        else none) := by
  induction pairs with
  | nil => rfl
  | cons p pairs ih =>
    have hmore := ih fun q hq => hgood q (List.mem_cons_of_mem _ hq)
    have hp : isHostPath p.1 = true := (hgood p (List.mem_cons_self ..)).1
    have hcand : hostIn rest ++ (splitPath rest).2 = candidateOf rest := rfl
    obtain ⟨source, target⟩ := p
    rw [moveHost, List.findSome?_cons, hcand]
    by_cases hprefix : source.isPrefixOf (candidateOf rest) = true
    · obtain ⟨after, hafter⟩ := List.isPrefixOf_iff_prefix.mp hprefix
      have hle : size source ≤ size (candidateOf rest) := by
        rw [← hafter, size_append]
        omega
      have hsub : sub (candidateOf rest) (size source) (size (candidateOf rest)) = some after := by
        rw [← hafter]
        exact sub_suffix ..
      have hboth : size source ≤ size (candidateOf rest) ∧
          source.isPrefixOf (candidateOf rest) = true := ⟨hle, hprefix⟩
      rw [if_pos hboth, hsub, Option.bind_eq_bind, Option.bind_some]
      by_cases hend : endsAtBoundary after = true
      · have hmatch : Matches (source, target) rest after :=
          (matches_iff hp).mpr ⟨hafter.symm, hend⟩
        have hstart : startsAtHost source (candidateOf rest) = true :=
          (startsAtHost_iff (p := (source, target)) hp).mpr ⟨after, hmatch⟩
        have hsource : size source = size (hostIn rest) + size (source.dropWhile (· ≠ '/')) := by
          rw [hmatch.host, ← size_append]
          dsimp only
          rw [List.takeWhile_append_dropWhile]
        have hpath := hmatch.path
        have hdrop := hmatch.drop
        dsimp only at hpath hdrop
        have hcut : size source - size (hostIn rest) = size (source.dropWhile (· ≠ '/')) := by
          omega
        have hhost : size (hostIn rest) ≤ size source := by omega
        rw [if_pos hend, if_pos hhost, hcut, hdrop, hpath, sub_suffix, if_pos hstart]
        rfl
      · have hstart : ¬ startsAtHost source (candidateOf rest) = true := by
          rw [startsAtHost, Bool.and_eq_true, ← hafter, List.drop_left]
          exact fun h => hend h.2
        rw [if_neg hend, hmore, if_neg hstart]
    · have hstart : ¬ startsAtHost source (candidateOf rest) = true := by
        rw [startsAtHost, Bool.and_eq_true]
        exact fun h => hprefix h.1
      rw [if_neg fun h => hprefix h.2, hmore, if_neg hstart]

theorem rewriteUri_eq (hgood : GoodPairs pairs) (uri : Text) :
    rewriteUri pairs uri = some (Mirror.rewriteUri pairs uri) := by
  rw [rewriteUri, Mirror.rewriteUri_eq]
  cases splitOnce "://".toList uri with
  | none => rfl
  | some found =>
    obtain ⟨scheme, rest⟩ := found
    exact moveHost_eq hgood scheme (userinfoOf rest) rest

theorem normalized_eq (hgood : GoodPairs pairs) (us : List Uri) :
    normalized pairs us = some (us.map fun u => normalizeTarget (rewrittenUri pairs u.value)) := by
  induction us with
  | nil => rfl
  | cons u us ih =>
    rw [normalized, rewriteUri_eq hgood, Option.bind_eq_bind, Option.bind_some, ih]
    rfl

def editInBytes (text : Text) (e : Edit Char) : Edit Char :=
  { e with start := byteAt text e.start, stop := byteAt text e.stop }

theorem uriEdits_eq (hgood : GoodPairs pairs) (us : List Uri) :
    uriEdits pairs (us.map (uriInBytes content)) =
      some ((us.filterMap (uriEdit pairs)).map (editInBytes content)) := by
  induction us with
  | nil => rfl
  | cons u us ih =>
    rw [List.map_cons, uriEdits, rewriteUri_eq hgood, Option.bind_eq_bind, Option.bind_some, ih,
      List.filterMap_cons, uriEdit]
    have hvalue : (uriInBytes content u).value = u.value := rfl
    rw [hvalue]
    cases Mirror.rewriteUri pairs u.value with
    | none => rfl
    | some new => rfl

end Uris

section Entries

theorem byteAt_mono (text : Text) : Monotone (byteAt text) := by
  intro m n h
  rw [byteAt, byteAt, ← Nat.add_sub_cancel' h, List.take_add, size_append]
  exact Nat.le_add_right ..

theorem firstUri_bounds {e : AptEntry} (he : e ∈ Mirror.parseSources content) :
    e.start ≤ (e.uris.map Uri.start).min?.getD e.stop ∧
      (e.uris.map Uri.start).min?.getD e.stop ≤ e.stop := by
  have hlocated := located content e he
  cases hmin : (e.uris.map Uri.start).min? with
  | none => exact ⟨hlocated.start_lt.le, le_refl _⟩
  | some n =>
    obtain ⟨u, hu, rfl⟩ := List.mem_map.mp (List.min?_mem hmin)
    obtain ⟨-, -, hstart, hlt, hstop, -⟩ := hlocated.uri u hu
    rw [Option.getD_some]
    omega

theorem exists_raw {e : AptEntry} (he : e ∈ Mirror.parseSources content) :
    ∃ front back, content = front ++ (e.raw ++ back) ∧ e.start = front.length ∧
      e.stop = front.length + e.raw.length := by
  have hlocated := located content e he
  have hlt := hlocated.start_lt
  have hle := hlocated.stop_le
  have hraw := hlocated.raw
  rw [slice] at hraw
  have hlen : e.raw.length = e.stop - e.start := by
    rw [← hraw, List.length_take, List.length_drop]
    omega
  refine ⟨content.take e.start, (content.drop e.start).drop (e.stop - e.start), ?_, ?_, ?_⟩
  · rw [← hraw, List.take_append_drop, List.take_append_drop]
  · rw [List.length_take]
    omega
  · rw [List.length_take, hlen]
    omega

theorem entryHead_eq {e : AptEntry} (he : e ∈ Mirror.parseSources content) :
    entryHead (entryInBytes content e) = some (Mirror.entryHead e) := by
  obtain ⟨hlow, hhigh⟩ := firstUri_bounds he
  obtain ⟨front, back, hcontent, hstart, hstop⟩ := exists_raw he
  have hfirst : ((entryInBytes content e).uris.map Uri.start).min?.getD
      (entryInBytes content e).stop = byteAt content ((e.uris.map Uri.start).min?.getD e.stop) := by
    have hstarts : (entryInBytes content e).uris.map Uri.start =
        (e.uris.map Uri.start).map (byteAt content) := by
      rw [entryInBytes, List.map_map, List.map_map]
      rfl
    rw [hstarts, min?_map (byteAt_mono content)]
    cases (e.uris.map Uri.start).min? with
    | none => rfl
    | some n => rfl
  rw [entryHead, hfirst, Mirror.entryHead]
  generalize (e.uris.map Uri.start).min?.getD e.stop = first at hlow hhigh ⊢
  obtain ⟨k, rfl⟩ : ∃ k, first = k + front.length := ⟨first - front.length, by omega⟩
  have hk : k ≤ e.raw.length := by omega
  have hplace : byteAt content (k + front.length) = byteAt e.raw k + size front := by
    rw [hcontent]
    exact byteAt_append hk
  have hbegin : byteAt content e.start = size front := by
    have h : byteAt content (0 + front.length) = byteAt e.raw 0 + size front := by
      rw [hcontent]
      exact byteAt_append (Nat.zero_le _)
    rwa [Nat.zero_add, byteAt_zero, Nat.zero_add, ← hstart] at h
  have hstartB : (entryInBytes content e).start = byteAt content e.start := rfl
  have hraw : (entryInBytes content e).raw = e.raw := rfl
  have hle : byteAt e.raw k ≤ size e.raw := by
    rw [← byteAt_length]
    exact byteAt_mono _ hk
  have hsub := sub_prefix (e.raw.take k) (e.raw.drop k)
  rw [List.take_append_drop] at hsub
  rw [hstartB, hraw, hplace, hbegin, Nat.add_sub_cancel, min_eq_left hle, hstart,
    Nat.add_sub_cancel]
  exact hsub

theorem eq_of_start {e f : AptEntry} (he : e ∈ Mirror.parseSources content)
    (hf : f ∈ Mirror.parseSources content) (h : e.start = f.start) : e = f := by
  by_contra hne
  have hsymm : Std.Symm fun e f : AptEntry => e.stop ≤ f.start ∨ f.stop ≤ e.start :=
    ⟨fun _ _ => Or.symm⟩
  have hapart := (entries_apart content).forall he hf hne
  have hpos := (located content e he).start_lt
  have hpos' := (located content f hf).start_lt
  omega

theorem entryInBytes_inj {e f : AptEntry} (he : e ∈ Mirror.parseSources content)
    (hf : f ∈ Mirror.parseSources content) (h : entryInBytes content e = entryInBytes content f) :
    e = f := by
  have hle (g : AptEntry) (hg : g ∈ Mirror.parseSources content) : g.start ≤ content.length := by
    have hlocated := located content g hg
    exact hlocated.start_lt.le.trans hlocated.stop_le
  have hstart : byteAt content e.start = byteAt content f.start := congrArg AptEntry.start h
  apply eq_of_start he hf
  apply le_antisymm
  · exact (size_take_le_iff (hle e he) (hle f hf)).mp hstart.le
  · exact (size_take_le_iff (hle f hf) (hle e he)).mp hstart.ge

end Entries

section Duplicates

theorem isCompared_entryInBytes (e : AptEntry) :
    isCompared (entryInBytes content e) = isCompared e := by
  rw [isCompared, isCompared, entryInBytes]
  simp

theorem keyed_eq (hgood : GoodPairs pairs) {entries : List AptEntry}
    (h : ∀ e ∈ entries, e ∈ Mirror.parseSources content) :
    keyed pairs (entries.map (entryInBytes content)) =
      some ((entries.filter isCompared).map fun e => (dedupKey pairs e, entryInBytes content e)) := by
  induction entries with
  | nil => rfl
  | cons e entries ih =>
    rw [List.forall_mem_cons] at h
    rw [List.map_cons, keyed, isCompared_entryInBytes, List.filter_cons, ih h.2]
    split
    · have huris : ((entryInBytes content e).uris.map fun u =>
          normalizeTarget (rewrittenUri pairs u.value)) =
            e.uris.map fun u => normalizeTarget (rewrittenUri pairs u.value) := by
        rw [entryInBytes, List.map_map]
        rfl
      rw [entryHead_eq h.1, normalized_eq hgood, huris]
      rfl
    · rfl

theorem isDuplicateIn_eq {e : AptEntry} (he : e ∈ Mirror.parseSources content)
    (hcompared : isCompared e = true) :
    isDuplicateIn (((Mirror.parseSources content).filter isCompared).map fun f =>
        (dedupKey pairs f, entryInBytes content f)) (dedupKey pairs e, entryInBytes content e) =
      isDuplicate pairs (Mirror.parseSources content) e := by
  have hgroup : ((((Mirror.parseSources content).filter isCompared).map fun f =>
      (dedupKey pairs f, entryInBytes content f)).filter fun l =>
        l.1 = dedupKey pairs e).map Prod.snd =
      (dedupGroup pairs (Mirror.parseSources content) e).map (entryInBytes content) := by
    rw [List.filter_map, List.map_map, List.filter_filter, dedupGroup]
    congr 1
    apply List.filter_congr
    intro f _
    exact Bool.and_comm ..
  rw [isDuplicateIn, isDuplicate, keeperOf]
  dsimp only
  rw [hgroup]
  cases hmem : dedupGroup pairs (Mirror.parseSources content) e with
  | nil => simp
  | cons first group =>
    have hkeeper : keeperFrom first group ∈ Mirror.parseSources content := by
      have h := (isFirstMax_firstMax (fun e : AptEntry => e.components.length) first group).mem
      rw [← hmem] at h
      exact (List.mem_filter.mp h).1
    have hsame : entryInBytes content e = entryInBytes content (keeperFrom first group) ↔
        e = keeperFrom first group :=
      ⟨entryInBytes_inj he hkeeper, fun h => congrArg _ h⟩
    have hmap : keeperFrom (entryInBytes content first) (group.map (entryInBytes content)) =
        entryInBytes content (keeperFrom first group) := firstMax_map (fun _ => rfl) first group
    rw [List.map_cons]
    dsimp only
    rw [hmap, hcompared, Bool.true_and]
    congr 1
    exact decide_eq_decide.mpr (not_congr hsame)

theorem duplicateDeletions_eq (hgood : GoodPairs pairs) :
    duplicateDeletions pairs ((Mirror.parseSources content).map (entryInBytes content)) =
      some ((Mirror.duplicateDeletions pairs (Mirror.parseSources content)).map fun d =>
        (byteAt content d.1, byteAt content d.2)) := by
  rw [duplicateDeletions, keyed_eq hgood fun _ he => he, Option.map_some]
  generalize hall : ((Mirror.parseSources content).filter isCompared).map (fun e =>
    (dedupKey pairs e, entryInBytes content e)) = all
  have hfilter : (Mirror.parseSources content).filter (fun e =>
      isDuplicateIn all (dedupKey pairs e, entryInBytes content e) && isCompared e) =
        (Mirror.parseSources content).filter (isDuplicate pairs (Mirror.parseSources content)) := by
    apply List.filter_congr
    intro e he
    cases hcompared : isCompared e with
    | true => rw [Bool.and_true, ← hall, isDuplicateIn_eq he hcompared]
    | false => rw [Bool.and_false, isDuplicate, hcompared, Bool.false_and, Bool.false_and]
  have hkept : all.filter (isDuplicateIn all) =
      ((Mirror.parseSources content).filter (isDuplicate pairs (Mirror.parseSources content))).map
        fun e => (dedupKey pairs e, entryInBytes content e) := by
    rw [← hfilter, ← List.filter_filter]
    nth_rewrite 2 [← hall]
    rw [List.filter_map]
    rfl
  rw [hkept, Mirror.duplicateDeletions, List.map_map, List.map_map]
  rfl

end Duplicates

section Splicing

theorem spliceFrom_eq {front rest : Text} {es : List (Edit Char)} (hcontent : content = front ++ rest)
    (hfits : Fits front.length content.length es) :
    spliceFrom content (size front) (es.map (editInBytes content)) =
      some (Splice.spliceFrom front.length rest es) := by
  induction es generalizing front rest with
  | nil =>
    rw [List.map_nil, spliceFrom, hcontent, sub_suffix]
    rfl
  | cons e es ih =>
    obtain ⟨hstart, hstop, hmore⟩ := hfits
    have hend := hmore.le
    have hlen : content.length = front.length + rest.length := by
      rw [hcontent, List.length_append]
    have htake (n : ℕ) (hn : front.length ≤ n) :
        content.take n = front ++ rest.take (n - front.length) := by
      rw [hcontent, List.take_append, List.take_of_length_le hn]
    have hkept : sub content (size front) (byteAt content e.start) =
        some (rest.take (e.start - front.length)) := by
      rw [byteAt, htake _ hstart, size_append]
      apply LeftAt.sub
      refine ⟨front, ?_, rfl⟩
      rw [hcontent]
      exact congrArg _ (List.take_append_drop _ rest).symm
    have hsplit : content =
        (front ++ rest.take (e.stop - front.length)) ++ rest.drop (e.stop - front.length) := by
      rw [List.append_assoc, List.take_append_drop, hcontent]
    have hfront : (front ++ rest.take (e.stop - front.length)).length = e.stop := by
      rw [List.length_append, List.length_take]
      omega
    have hrest := ih hsplit (hfront.symm ▸ hmore)
    rw [hfront] at hrest
    have hposition : byteAt content e.stop = size (front ++ rest.take (e.stop - front.length)) := by
      rw [byteAt, htake _ (hstart.trans hstop)]
    rw [List.map_cons, spliceFrom, editInBytes]
    dsimp only
    rw [hkept, hposition, hrest]
    rfl

theorem survives_eq {deletions : List (ℕ × ℕ)} {e : Edit Char}
    (hdeletions : ∀ d ∈ deletions, d.1 ≤ content.length ∧ d.2 ≤ content.length)
    (he : e.start ≤ content.length ∧ e.stop ≤ content.length) :
    survives (deletions.map fun d => (byteAt content d.1, byteAt content d.2))
      (editInBytes content e) = survives deletions e := by
  rw [survives, survives, List.any_map]
  congr 1
  rw [Bool.eq_iff_iff, List.any_eq_true, List.any_eq_true]
  apply exists_congr
  intro d
  apply and_congr_right
  intro hd
  obtain ⟨h1, h2⟩ := hdeletions d hd
  rw [Function.comp_apply, Bool.and_eq_true, Bool.and_eq_true, decide_eq_true_eq,
    decide_eq_true_eq, decide_eq_true_eq, decide_eq_true_eq]
  exact and_congr (size_take_le_iff h1 he.1) (size_take_le_iff he.2 h2)

theorem edits_le : ∀ e ∈ (Mirror.parseSources content).flatMap (Mirror.uriEdits pairs),
    e.start ≤ content.length ∧ e.stop ≤ content.length := by
  intro d hd
  obtain ⟨e, he, hd⟩ := List.mem_flatMap.mp hd
  obtain ⟨u, hu, hsome⟩ := List.mem_filterMap.mp hd
  obtain ⟨new, -, rfl⟩ := Option.map_eq_some_iff.mp hsome
  have hlocated := located content e he
  obtain ⟨-, -, -, hlt, hstop, -⟩ := hlocated.uri u hu
  have hle := hlocated.stop_le
  dsimp only
  omega

theorem deletions_le : ∀ d ∈ Mirror.duplicateDeletions pairs (Mirror.parseSources content),
    d.1 ≤ content.length ∧ d.2 ≤ content.length := by
  intro d hd
  obtain ⟨e, he, rfl⟩ := List.mem_map.mp hd
  have hlocated := located content e (List.mem_of_mem_filter he)
  exact ⟨hlocated.start_lt.le.trans hlocated.stop_le, hlocated.stop_le⟩

theorem sortEdits_bytes {es : List (Edit Char)} (h : sortEdits es = fileEdits pairs content) :
    sortEdits (es.map (editInBytes content)) =
      (fileEdits pairs content).map (editInBytes content) := by
  have hperm : es.Perm (fileEdits pairs content) := h ▸ (List.perm_insertionSort _ es).symm
  have hfits := fileEdits_fits pairs content
  apply sortEdits_eq (hperm.map _)
  rw [List.pairwise_map]
  apply (hfits.pairwise (fileEdits_pos pairs content)).imp_of_mem
  intro d e _ he hlt
  obtain ⟨-, hle, hstop⟩ := hfits.le_start he
  exact size_take_lt hlt (hle.trans hstop)

theorem rewriteWith_bytes (hgood : GoodPairs pairs) :
    rewriteWith pairs content = some (Mirror.rewriteWith pairs content) := by
  have hentries : ((Mirror.parseSources content).map (entryInBytes content)).flatMap
      AptEntry.uris = ((Mirror.parseSources content).flatMap AptEntry.uris).map
        (uriInBytes content) := by
    rw [List.flatMap_map, List.map_flatMap]
    rfl
  have hedits : ((Mirror.parseSources content).flatMap AptEntry.uris).filterMap (uriEdit pairs) =
      (Mirror.parseSources content).flatMap (Mirror.uriEdits pairs) := by
    rw [List.filterMap_flatMap]
    rfl
  rw [rewriteWith, parseSources_eq, Option.bind_eq_bind, Option.bind_some,
    duplicateDeletions_eq hgood, Option.bind_eq_bind, Option.bind_some, hentries,
    uriEdits_eq hgood, hedits, Option.bind_eq_bind, Option.bind_some, Mirror.rewriteWith]
  dsimp only
  by_cases hnone : (Mirror.parseSources content).flatMap (Mirror.uriEdits pairs) = [] ∧
      Mirror.duplicateDeletions pairs (Mirror.parseSources content) = []
  · rw [if_pos hnone, hnone.1, hnone.2]
    rfl
  · have hsome : ¬ (((Mirror.parseSources content).flatMap (Mirror.uriEdits pairs)).map
        (editInBytes content) = [] ∧
          ((Mirror.duplicateDeletions pairs (Mirror.parseSources content)).map fun d =>
            (byteAt content d.1, byteAt content d.2)) = []) := by
      rwa [List.map_eq_nil_iff, List.map_eq_nil_iff]
    have hkept : (((Mirror.parseSources content).flatMap (Mirror.uriEdits pairs)).map
        (editInBytes content)).filter
          (survives ((Mirror.duplicateDeletions pairs (Mirror.parseSources content)).map fun d =>
            (byteAt content d.1, byteAt content d.2))) =
        (((Mirror.parseSources content).flatMap (Mirror.uriEdits pairs)).filter (survives
          (Mirror.duplicateDeletions pairs (Mirror.parseSources content)))).map
            (editInBytes content) := by
      rw [List.filter_map]
      congr 1
      apply List.filter_congr
      intro e he
      exact survives_eq deletions_le (edits_le e he)
    have hsort := sortEdits_bytes (sortEdits_fileEdits pairs content)
    rw [List.map_append, List.map_map] at hsort
    have hsplice : spliceFrom content 0 ((fileEdits pairs content).map (editInBytes content)) =
        some (splice content (fileEdits pairs content)) :=
      spliceFrom_eq (List.nil_append content).symm (fileEdits_fits pairs content)
    have hdeletions : (Mirror.duplicateDeletions pairs (Mirror.parseSources content)).map
        ((fun d : ℕ × ℕ => (⟨d.1, d.2, []⟩ : Edit Char)) ∘ fun d =>
          (byteAt content d.1, byteAt content d.2)) =
        (Mirror.duplicateDeletions pairs (Mirror.parseSources content)).map
          (editInBytes content ∘ fun d : ℕ × ℕ => ⟨d.1, d.2, []⟩) := rfl
    rw [if_neg hsome, if_neg hnone, hkept, List.map_map, hdeletions, hsort, hsplice,
      sortEdits_fileEdits]
    rfl

theorem rewrite_bytes (family : Family) (mirror : MirrorName) (replaceSecurity : Bool)
    (content : Text) : rewrite family mirror replaceSecurity content =
      some (Mirror.rewrite family mirror replaceSecurity content) :=
  rewriteWith_bytes (goodPairs_replacementPairs family mirror replaceSecurity)

end Splicing

end LandscapeKit.Mirror.Bytewise

namespace LandscapeKit.Mirror

open Text Splice

end LandscapeKit.Mirror
