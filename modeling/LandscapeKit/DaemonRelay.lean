import LandscapeKit.DaemonOutput

/-!
The front end loses nothing of a worker's output as long as it polls between characters. What it
has read of a stream is a text that begins the stream, and the open file stands behind it; a poll
reads the rest of the file, which is a text exactly where the whole file is one.
-/

namespace LandscapeKit.Daemon.Relay

open Text Utf8 WorkerPresentation

section Schedules

variable {P : List Move → Stream → Prop} {moves : List Move} {move : Move}

theorem atEachPoll_nil : AtEachPoll P [] := by
  intro before s h
  have hlength := h.length_le
  simp at hlength

theorem atEachPoll_concat : AtEachPoll P (moves ++ [move]) ↔
    AtEachPoll P moves ∧ ∀ s, move = .poll s → P moves s := by
  constructor
  · intro h
    refine ⟨fun before s hb => h before s (hb.trans (List.prefix_append _ _)), ?_⟩
    rintro s rfl
    exact h moves s List.prefix_rfl
  · rintro ⟨hmoves, hlast⟩ before s hb
    rcases List.prefix_concat_iff.mp hb with heq | hb
    · obtain ⟨rfl, hmove⟩ := List.append_inj' heq rfl
      exact hlast s (List.cons.inj hmove).1.symm
    · exact hmoves before s hb

theorem written_concat_append (s t : Stream) (n : ℕ) :
    written t (moves ++ [.append s n]) = written t moves + if s = t then n else 0 := by
  induction moves with
  | nil =>
    rw [List.nil_append, written, written, Nat.zero_add]
    rfl
  | cons m moves ih =>
    cases m with
    | append u k =>
      rw [List.cons_append, written, written, ih]
      split <;> omega
    | poll u =>
      rw [List.cons_append, written, written, ih]

theorem written_concat_poll (s t : Stream) : written t (moves ++ [.poll s]) = written t moves := by
  induction moves with
  | nil => rfl
  | cons m moves ih =>
    cases m with
    | append u k => rw [List.cons_append, written, written, ih]
    | poll u => rw [List.cons_append, written, written, ih]

end Schedules

section Reading

structure Sound (content : Bytes) (offset : Option ℕ) (text : Text) : Prop where
  stands : standing offset = size text
  read : bytes text <+: content

variable {content : Bytes} {offset : Option ℕ} {text : Text}

theorem Sound.mono {more : Bytes} (h : Sound content offset text) (hmore : content <+: more) :
    Sound more offset text :=
  ⟨h.stands, h.read.trans hmore⟩

theorem Sound.readToString_eq (h : Sound content offset text) (hutf8 : IsUtf8 content) :
    ∃ more, readToString content (standing offset) = some more ∧ bytes (text ++ more) = content := by
  obtain ⟨rest, rfl⟩ := h.read
  have hrest := isUtf8_append.mp hutf8
  refine ⟨lossy rest, ?_, ?_⟩
  · simp only [readToString, h.stands, size, List.drop_left, if_pos hrest]
  · rw [bytes_append, hrest]

theorem Sound.readToString_eq_none (h : Sound content offset text) (hutf8 : ¬IsUtf8 content) :
    readToString content (standing offset) = none := by
  obtain ⟨rest, rfl⟩ := h.read
  have hrest : ¬IsUtf8 rest := fun hr => hutf8 (isUtf8_append.mpr hr)
  simp only [readToString, h.stands, size, List.drop_left, if_neg hrest]

end Reading

section Lines

variable {F : EventFormat}

theorem splitOnce_none {c : Char} {text : Text} (h : c ∉ text) : splitOnce [c] text = none := by
  rcases hfind : find [c] text with _ | n
  · rw [splitOnce, hfind]
    rfl
  · obtain ⟨hbegins, -⟩ := find_spec hfind
    have hmem : c ∈ text.drop n := hbegins.subset List.mem_cons_self
    exact absurd (List.mem_of_mem_drop hmem) h

theorem size_line_pos (event : PresentationEvent) : 0 < size (F.line event) := by
  have hlength := length_le_size (F.line event)
  rw [EventFormat.line, List.length_append, List.length_singleton] at hlength
  rw [EventFormat.line]
  omega

theorem terminated_begins (events : List PresentationEvent) (n : ℕ) :
    terminated F events n <+: events := by
  induction events generalizing n with
  | nil => exact List.prefix_rfl
  | cons event events ih =>
    rw [terminated]
    split
    · exact List.cons_prefix_cons.mpr ⟨rfl, ih _⟩
    · exact List.nil_prefix

theorem terminated_of_lt {event : PresentationEvent} {events : List PresentationEvent} {n : ℕ}
    (h : n < size (F.line event)) : terminated F (event :: events) n = [] := by
  rw [terminated, if_neg (not_le_of_gt h)]

theorem terminated_zero (events : List PresentationEvent) : terminated F events 0 = [] := by
  cases events with
  | nil => rfl
  | cons event events => exact terminated_of_lt (size_line_pos event)

theorem terminated_append (front back : List PresentationEvent) (n : ℕ) :
    terminated F (front ++ back) (size (front.flatMap F.line) + n) =
      front ++ terminated F back n := by
  induction front with
  | nil =>
    rw [List.flatMap_nil, size_nil, Nat.zero_add]
    rfl
  | cons event front ih =>
    have hsize : size (F.line event) ≤ size ((event :: front).flatMap F.line) + n := by
      rw [List.flatMap_cons, size_append]
      omega
    have hrest : size ((event :: front).flatMap F.line) + n - size (F.line event) =
        size (front.flatMap F.line) + n := by
      rw [List.flatMap_cons, size_append]
      omega
    rw [List.cons_append, terminated, if_pos hsize, hrest, ih]
    rfl

theorem exists_line {event : PresentationEvent} {pending behind : Text}
    (h : pending <+: F.line event ++ behind) (hline : '\n' ∈ pending) :
    ∃ more, pending = F.line event ++ more ∧ more <+: behind := by
  rcases List.prefix_or_prefix_of_prefix h (List.prefix_append _ _) with hshort | hlong
  · rcases List.prefix_concat_iff.mp hshort with heq | hshort
    · exact ⟨[], by rw [heq, EventFormat.line, List.append_nil], List.nil_prefix⟩
    · exact absurd (hshort.subset hline) (F.oneLine event)
  · obtain ⟨more, rfl⟩ := hlong
    exact ⟨more, rfl, (List.prefix_append_right_inj _).mp h⟩

theorem size_lt_line {event : PresentationEvent} {pending behind : Text}
    (h : pending <+: F.line event ++ behind) (hline : '\n' ∉ pending) :
    size pending < size (F.line event) := by
  rcases List.prefix_or_prefix_of_prefix h (List.prefix_append _ _) with hshort | hlong
  · obtain ⟨rest, hrest⟩ := hshort
    have hne : rest ≠ [] := by
      rintro rfl
      rw [List.append_nil] at hrest
      apply hline
      rw [hrest, EventFormat.line]
      exact List.mem_append_right _ List.mem_cons_self
    have hpos : size rest ≠ 0 := fun hzero => hne (size_eq_zero_iff.mp hzero)
    rw [← hrest, size_append]
    omega
  · apply absurd (hlong.subset _) hline
    exact List.mem_append_right _ List.mem_cons_self

theorem foldl_apply_pending (events : List PresentationEvent) (p : WorkerPresentation)
    (pending : Text) :
    events.foldl apply { p with pending := pending } =
      { events.foldl apply p with pending := pending } := by
  induction events generalizing p with
  | nil => rfl
  | cons event events ih => exact ih (p.apply event)

theorem applyLines_spec (events : List PresentationEvent) (fuel : ℕ) (p : WorkerPresentation)
    (hfuel : p.pending.length ≤ fuel) (h : p.pending <+: events.flatMap F.line) :
    ∃ rest, p.pending = (terminated F events (size p.pending)).flatMap F.line ++ rest ∧
      applyLines F fuel p =
        (none, { (terminated F events (size p.pending)).foldl apply p with pending := rest }) := by
  induction fuel generalizing events p with
  | zero =>
    have hnil := List.eq_nil_of_length_eq_zero (Nat.le_zero.mp hfuel)
    refine ⟨[], ?_, ?_⟩
    · rw [hnil, size_nil, terminated_zero]
      rfl
    · rw [applyLines, hnil, size_nil, terminated_zero, List.foldl_nil, ← hnil]
  | succ fuel ih =>
    by_cases hline : '\n' ∈ p.pending
    · -- a whole line, that of the first event
      cases events with
      | nil =>
        rw [List.prefix_nil.mp h] at hline
        cases hline
      | cons event events =>
        obtain ⟨more, hmore, hrest⟩ := exists_line h hline
        have hsize : size (F.line event) ≤ size p.pending := by
          rw [hmore, size_append]
          omega
        have hn : size p.pending - size (F.line event) = size more := by
          rw [hmore, size_append]
          omega
        have hlength : more.length ≤ fuel := by
          rw [hmore, EventFormat.line, List.length_append, List.length_append,
            List.length_singleton] at hfuel
          omega
        have hsplit : splitOnce ['\n'] p.pending = some (F.toJson event, more) := by
          rw [hmore, EventFormat.line, List.append_assoc, List.singleton_append]
          exact splitOnce_char (F.oneLine event)
        obtain ⟨rest, hpending, hloop⟩ :=
          ih events { p.apply event with pending := more } hlength hrest
        change more = (terminated F events (size more)).flatMap F.line ++ rest at hpending
        refine ⟨rest, ?_, ?_⟩
        · rw [terminated, if_pos hsize, hn, List.flatMap_cons, List.append_assoc, ← hpending]
          exact hmore
        · rw [applyLines, hsplit]
          dsimp only
          rw [if_neg (F.notEmpty event), F.read event]
          rw [foldl_apply_pending] at hloop
          rw [terminated, if_pos hsize, hn]
          exact hloop
    · have hnone : terminated F events (size p.pending) = [] := by
        cases events with
        | nil => rfl
        | cons event events => exact terminated_of_lt (size_lt_line h hline)
      refine ⟨p.pending, ?_, ?_⟩
      · rw [hnone]
        rfl
      · rw [applyLines, splitOnce_none hline, hnone]
        rfl

@[simp] theorem foldl_apply_applied (events : List PresentationEvent) (p : WorkerPresentation) :
    (events.foldl apply p).applied = p.applied ++ events := by
  induction events generalizing p with
  | nil => exact (List.append_nil _).symm
  | cons event events ih =>
    rw [List.foldl_cons, ih, apply, List.append_assoc]
    rfl

@[simp] theorem foldl_apply_display (events : List PresentationEvent) (p : WorkerPresentation) :
    (events.foldl apply p).display = events.foldl Display.apply p.display := by
  induction events generalizing p with
  | nil => rfl
  | cons event events ih =>
    rw [List.foldl_cons, ih]
    rfl

@[simp] theorem foldl_apply_events (events : List PresentationEvent) (p : WorkerPresentation) :
    (events.foldl apply p).events = p.events := by
  induction events generalizing p with
  | nil => rfl
  | cons event events ih =>
    rw [List.foldl_cons, ih]
    rfl

end Lines

section Polls

variable {F : EventFormat} {o : Output} {content : Bytes} {file : Option Bytes}

structure Followed (F : EventFormat) (o : Output) (content : Bytes) (p : WorkerPresentation) :
    Prop where
  sound : Sound content p.events (p.applied.flatMap F.line ++ p.pending)
  applied : p.applied <+: o.events
  display : p.display = p.applied.foldl Display.apply idle

theorem Followed.mono {more : Bytes} {p : WorkerPresentation} (h : Followed F o content p)
    (hmore : content <+: more) : Followed F o more p :=
  ⟨h.sound.mono hmore, h.applied, h.display⟩

theorem Sound.of_missing {offset : Option ℕ} {text : Text} (h : Sound [] offset text) :
    text = [] := by
  apply size_eq_zero_iff.mp
  rw [size, List.prefix_nil.mp h.read]
  rfl

theorem drain_utf8 {p : WorkerPresentation} (hfile : file.getD [] = content)
    (hcontent : content <+: bytes (o.events.flatMap F.line)) (h : Followed F o content p)
    (hutf8 : IsUtf8 content) :
    (p.drain F file).1 = none ∧ Followed F o content (p.drain F file).2 ∧
      (p.drain F file).2.applied = terminated F o.events content.length := by
  cases file with
  | none =>
    obtain rfl : [] = content := hfile
    have hnil := h.sound.of_missing
    rw [List.append_eq_nil_iff] at hnil
    refine ⟨rfl, h, ?_⟩
    rw [List.length_nil, terminated_zero, WorkerPresentation.drain]
    cases happlied : p.applied with
    | nil => rfl
    | cons event events =>
      have hpos := size_line_pos (F := F) event
      rw [happlied, List.flatMap_cons, List.append_eq_nil_iff] at hnil
      rw [hnil.1.1, size_nil] at hpos
      exact absurd hpos (lt_irrefl 0)
  | some content =>
    obtain rfl : content = _ := hfile
    obtain ⟨more, hread, hall⟩ := h.sound.readToString_eq hutf8
    rw [List.append_assoc] at hall
    obtain ⟨events, hevents⟩ := h.applied
    have hbegins : p.pending ++ more <+: events.flatMap F.line := by
      rw [← hall] at hcontent
      have htext := prefix_of_bytes hcontent
      rw [← hevents, List.flatMap_append] at htext
      exact (List.prefix_append_right_inj _).mp htext
    obtain ⟨rest, hpending, hloop⟩ := applyLines_spec events _
      { p with events := some content.length, pending := p.pending ++ more } le_rfl hbegins
    change p.pending ++ more =
      (terminated F events (size (p.pending ++ more))).flatMap F.line ++ rest at hpending
    have hdrain : p.drain F (some content) = applyLines F (p.pending ++ more).length
        { p with events := some content.length, pending := p.pending ++ more } := by
      rw [WorkerPresentation.drain]
      dsimp only
      rw [hread]
    have happlied : terminated F o.events content.length =
        p.applied ++ terminated F events (size (p.pending ++ more)) := by
      rw [← hevents, ← terminated_append, ← size_append, ← hall]
      rfl
    have htext : (p.applied ++ terminated F events (size (p.pending ++ more))).flatMap F.line ++
        rest = p.applied.flatMap F.line ++ (p.pending ++ more) := by
      rw [List.flatMap_append, List.append_assoc, ← hpending]
    rw [hdrain, hloop]
    refine ⟨rfl, ⟨⟨?_, ?_⟩, ?_, ?_⟩, ?_⟩
    · simp only [foldl_apply_events, foldl_apply_applied]
      rw [htext, size, hall]
      rfl
    · simp only [foldl_apply_applied]
      rw [htext, hall]
    · simp only [foldl_apply_applied]
      rw [← hevents]
      exact (List.prefix_append_right_inj _).mpr (terminated_begins _ _)
    · simp only [foldl_apply_applied, foldl_apply_display]
      rw [List.foldl_append, h.display]
    · simp only [foldl_apply_applied]
      exact happlied.symm

theorem drain_torn {p : WorkerPresentation} (hfile : file.getD [] = content)
    (h : Followed F o content p) (hutf8 : ¬IsUtf8 content) :
    (p.drain F file).1 = some .readEvents := by
  cases file with
  | none =>
    rw [← hfile] at hutf8
    exact absurd rfl hutf8
  | some content =>
    obtain rfl : content = _ := hfile
    rw [WorkerPresentation.drain]
    dsimp only
    rw [h.sound.readToString_eq_none hutf8]

theorem drainLog_eq {log : Log} {w : Wait} {text : Text}
    (hread : readToString content (standing (w.offset log)) = some text) :
    ∃ logs, drainLog log (some content) w =
      { w with
        offset := Function.update w.offset log (some content.length)
        forwarded := Function.update w.forwarded log (w.forwarded log ++ text)
        presentation := { w.presentation with logs := logs } } := by
  rw [drainLog]
  dsimp only
  rw [hread]
  dsimp only
  split
  · rename_i hempty
    refine ⟨w.presentation.logs, ?_⟩
    rw [hempty, List.append_nil, Function.update_eq_self]
  · rw [forward, captureLog]
    dsimp only
    by_cases hscreen : w.presentation.screen = true
    · rw [if_pos hscreen]
      exact ⟨_, rfl⟩
    · rw [if_neg hscreen]
      exact ⟨w.presentation.logs, rfl⟩

theorem drainLog_torn {log : Log} {w : Wait} (hfile : file.getD [] = content)
    (h : Sound content (w.offset log) (w.forwarded log)) (hutf8 : ¬IsUtf8 content) :
    (drainLog log file w).failed = some .readLog := by
  cases file with
  | none =>
    rw [← hfile] at hutf8
    exact absurd rfl hutf8
  | some content =>
    obtain rfl : content = _ := hfile
    rw [drainLog]
    dsimp only
    rw [h.readToString_eq_none hutf8]

end Polls

section Runs

variable {F : EventFormat} {o : Output} {fullScreen : Bool} {moves : List Move}

structure Inv (F : EventFormat) (o : Output) (moves : List Move) (w : World) : Prop where
  file : ∀ s, (w.file s).getD [] = appended F o s moves
  logs : ∀ log, Sound (appended F o (.log log) moves) (w.wait.offset log) (w.wait.forwarded log)
  events : Followed F o (appended F o .events moves) w.wait.presentation
  runs : w.wait.failed = none

theorem appended_concat_append (s t : Stream) (n : ℕ) :
    appended F o t (moves ++ [.append s n]) =
      if s = t then
        appended F o s moves ++ ((o.content F s).drop (appended F o s moves).length).take n
      else appended F o t moves := by
  split
  · rename_i heq
    rw [← heq, appended, written_concat_append, if_pos rfl, appended, List.take_add,
      List.length_take]
    rcases Nat.le_total (written s moves) (o.content F s).length with hle | hle
    · rw [Nat.min_eq_left hle]
    · rw [Nat.min_eq_right hle, List.drop_eq_nil_of_le hle, List.drop_length]
  · rename_i hne
    rw [appended, written_concat_append, if_neg hne, Nat.add_zero, appended]

theorem appended_concat_poll (s t : Stream) :
    appended F o t (moves ++ [.poll s]) = appended F o t moves := by
  rw [appended, written_concat_poll, appended]

theorem inv_start : Inv F o [] ⟨fun _ => none, start fullScreen⟩ := by
  refine ⟨fun s => ?_, fun log => ⟨rfl, List.nil_prefix⟩, ⟨⟨rfl, List.nil_prefix⟩, ?_, rfl⟩, rfl⟩
  · rw [appended, written, List.take_zero]
    rfl
  · exact List.nil_prefix

theorem Inv.append {w : World} (h : Inv F o moves w) (s : Stream) (n : ℕ) :
    Inv F o (moves ++ [.append s n]) (step F o w (.append s n)) := by
  have hgrows (t : Stream) : appended F o t moves <+: appended F o t (moves ++ [.append s n]) := by
    rw [appended, appended, written_concat_append]
    exact List.take_prefix_take_left (Nat.le_add_right _ _)
  refine ⟨fun t => ?_, fun log => (h.logs log).mono (hgrows _), h.events.mono (hgrows _), h.runs⟩
  rw [appended_concat_append, step]
  dsimp only
  rw [h.file s]
  by_cases ht : t = s
  · rw [ht, Function.update_self, if_pos rfl]
    rfl
  · rw [Function.update_of_ne ht, if_neg (fun h => ht h.symm)]
    exact h.file t

theorem Inv.poll {w : World} (h : Inv F o moves w) {s : Stream}
    (hutf8 : IsUtf8 (appended F o s moves)) :
    Inv F o (moves ++ [.poll s]) (step F o w (.poll s)) ∧
      Complete F o moves (step F o w (.poll s)).wait s := by
  have hruns : w.wait.failed.isSome = false := by
    rw [h.runs]
    rfl
  cases s with
  | log log =>
    have hstep : step F o w (.poll (.log log)) =
        { w with wait := drainLog log (w.file (.log log)) w.wait } := by
      simp only [step, hruns, Bool.false_eq_true, if_false]
    rw [hstep]
    have hfile := h.file (.log log)
    rcases hthere : w.file (.log log) with _ | content
    · rw [hthere] at hfile
      have hnil : [] = appended F o (.log log) moves := hfile
      have hlog := h.logs log
      rw [← hnil] at hlog
      refine ⟨⟨fun t => ?_, fun t => ?_, ?_, h.runs⟩, ?_⟩
      · rw [appended_concat_poll]
        exact h.file t
      · rw [appended_concat_poll]
        exact h.logs t
      · rw [appended_concat_poll]
        exact h.events
      · rw [Complete, ← hnil]
        exact congrArg bytes hlog.of_missing
    · rw [hthere] at hfile
      obtain rfl : content = _ := hfile
      obtain ⟨more, hread, hall⟩ := (h.logs log).readToString_eq hutf8
      obtain ⟨logs, hdrain⟩ := drainLog_eq hread
      rw [hdrain]
      refine ⟨⟨fun t => ?_, fun other => ?_, ?_, h.runs⟩, ?_⟩
      · rw [appended_concat_poll]
        exact h.file t
      · rw [appended_concat_poll]
        by_cases hother : other = log
        · rw [hother]
          simp only [Function.update_self]
          refine ⟨?_, ?_⟩
          · rw [size, hall]
            rfl
          · rw [hall]
        · simp only [Function.update_of_ne hother]
          exact h.logs other
      · rw [appended_concat_poll]
        exact ⟨h.events.sound, h.events.applied, h.events.display⟩
      · simp only [Complete, Function.update_self]
        exact hall
  | events =>
    have hstep : step F o w (.poll .events) =
        { w with wait := drainEvents F (w.file .events) w.wait } := by
      simp only [step, hruns, Bool.false_eq_true, if_false]
    obtain ⟨hok, hfollowed, happlied⟩ :=
      drain_utf8 (h.file .events) (List.take_prefix _ _) h.events hutf8
    rw [hstep]
    refine ⟨⟨fun t => ?_, fun log => ?_, ?_, hok⟩, happlied, ?_⟩
    · rw [appended_concat_poll]
      exact h.file t
    · rw [appended_concat_poll]
      exact h.logs log
    · rw [appended_concat_poll]
      exact hfollowed
    · rw [← happlied]
      exact hfollowed.display

theorem Inv.poll_torn {w : World} (h : Inv F o moves w) {s : Stream}
    (hutf8 : ¬IsUtf8 (appended F o s moves)) : (step F o w (.poll s)).wait.failed ≠ none := by
  have hruns : w.wait.failed.isSome = false := by
    rw [h.runs]
    rfl
  cases s with
  | log log =>
    have hfailed := drainLog_torn (h.file (.log log)) (h.logs log) hutf8
    simp only [step, hruns, Bool.false_eq_true, if_false, hfailed]
    nofun
  | events =>
    have hfailed := drain_torn (h.file .events) h.events hutf8
    simp only [step, hruns, Bool.false_eq_true, if_false, drainEvents, hfailed]
    nofun

theorem run_concat (move : Move) : run F o fullScreen (moves ++ [move]) =
    step F o (run F o fullScreen moves) move := by
  rw [run, List.foldl_append]
  rfl

theorem inv_run (h : BetweenCharacters F o moves) : Inv F o moves (run F o fullScreen moves) := by
  induction moves using List.reverseRecOn with
  | nil => exact inv_start
  | append_singleton moves move ih =>
    obtain ⟨hmoves, hlast⟩ := atEachPoll_concat.mp h
    rw [run_concat]
    cases move with
    | append s n => exact (ih hmoves).append s n
    | poll s => exact ((ih hmoves).poll (hlast s rfl)).1

/-- However the worker cuts its streams into pieces and whenever they are polled: the polls relay
everything exactly where none falls inside a character. -/
theorem relayed_iff (F : EventFormat) (o : Output) (fullScreen : Bool) (moves : List Move) :
    Relayed F o fullScreen moves ↔ BetweenCharacters F o moves := by
  constructor
  · intro h
    induction moves using List.reverseRecOn with
    | nil => exact atEachPoll_nil
    | append_singleton moves move ih =>
      obtain ⟨hmoves, hlast⟩ := atEachPoll_concat.mp h
      have hbetween := ih hmoves
      refine atEachPoll_concat.mpr ⟨hbetween, ?_⟩
      rintro s rfl
      by_contra hutf8
      obtain ⟨hruns, -⟩ := hlast s rfl
      rw [run_concat] at hruns
      exact (inv_run hbetween).poll_torn hutf8 hruns
  · intro h
    induction moves using List.reverseRecOn with
    | nil => exact atEachPoll_nil
    | append_singleton moves move ih =>
      obtain ⟨hmoves, hlast⟩ := atEachPoll_concat.mp h
      refine atEachPoll_concat.mpr ⟨ih hmoves, ?_⟩
      rintro s rfl
      have hbefore : Inv F o moves (run F o fullScreen moves) := inv_run hmoves
      obtain ⟨hinv, hcomplete⟩ := hbefore.poll (hlast s rfl)
      rw [run_concat]
      exact ⟨hinv.runs, hcomplete⟩

def cutOutput : Output where
  log := fun log => if log = .stdout then ['安', '装'] else []
  events := []

def cutMoves : List Move := [.append (.log .stdout) 2, .poll (.log .stdout)]

noncomputable def countingFormat : EventFormat :=
  let number := Classical.choose (exists_injective_nat PresentationEvent)
  { toJson := fun event => List.replicate (number event + 1) 'a'
    fromJson := fun text => Function.partialInv number (text.length - 1)
    read := by
      intro event
      rw [List.length_replicate, Nat.add_sub_cancel]
      exact Function.partialInv_left
        (Classical.choose_spec (exists_injective_nat PresentationEvent)) event
    oneLine := by
      intro event hmem
      exact absurd (List.eq_of_mem_replicate hmem) (by decide)
    notEmpty := by
      intro event
      rw [List.replicate_succ]
      nofun }

theorem not_relayed_cut : ¬Relayed countingFormat cutOutput false cutMoves := by
  intro h
  obtain ⟨hruns, -⟩ := h [.append (.log .stdout) 2] (.log .stdout) List.prefix_rfl
  have hfailed : (run countingFormat cutOutput false cutMoves).wait.failed = some .readLog := by
    decide +kernel
  cases hfailed.symm.trans hruns

end Runs

end LandscapeKit.Daemon.Relay
