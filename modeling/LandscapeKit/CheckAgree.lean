import LandscapeKit.CheckPorts

/-!
When the two questions about a port have one answer. Both read a line of a table alike, but one
asks for its first holder and the other for all of them; a socket that nobody can be seen to hold
is an error for the one and nothing for the other.
-/

namespace LandscapeKit.Check.Ports

open Text Service.Identity

section Lines

structure SocketLine (line address state : Text) (port : UInt16) (inode : ℕ) : Prop where
  fields : ∃ slot localAddress remote queues timer retransmits uid timeout inodeText rest,
    Hostnet.splitWhitespace line = slot :: localAddress :: remote :: state :: queues :: timer ::
      retransmits :: uid :: timeout :: inodeText :: rest ∧
    (∃ portHex, rsplitOnce ':' localAddress = some (address, portHex) ∧
      parseHexU16 portHex = some port) ∧
    Download.parseU64 inodeText = some inode

variable {line address : Text} {port : UInt16} {inode : ℕ}

theorem listenerOf_iff {isTcp : Bool} : listenerOf port isTcp line = some (address, inode) ↔
    ∃ state, SocketLine line address state port inode ∧ (isTcp = true → state = "0A".toList) := by
  constructor
  · intro h
    unfold listenerOf at h
    split at h
    · rename_i slot localAddress remote state queues timer retransmits uid timeout inodeText rest
        hfields
      split at h
      · cases h
      · rename_i hstate
        obtain ⟨⟨address', portHex⟩, hcut, h⟩ := Option.bind_eq_some_iff.mp h
        obtain ⟨localPort, hport, h⟩ := Option.bind_eq_some_iff.mp h
        split at h
        · cases h
        · rename_i hsame
          obtain ⟨inode', hinode, h⟩ := Option.map_eq_some_iff.mp h
          obtain ⟨rfl, rfl⟩ := Prod.mk.inj h
          rw [not_not] at hsame
          subst hsame
          refine ⟨state, ⟨_, _, _, _, _, _, _, _, _, _, hfields, ⟨_, hcut, hport⟩, hinode⟩, ?_⟩
          intro htcp
          by_contra hother
          exact hstate (by rw [htcp, Bool.true_and, decide_eq_true hother])
    · cases h
  · rintro ⟨state, ⟨slot, localAddress, remote, queues, timer, retransmits, uid, timeout,
      inodeText, rest, hfields, ⟨portHex, hcut, hport⟩, hinode⟩, hstate⟩
    have hkept : ¬ (isTcp && decide (state ≠ "0A".toList)) = true := by
      intro h
      rw [Bool.and_eq_true, decide_eq_true_eq] at h
      exact h.2 (hstate h.1)
    unfold listenerOf
    rw [hfields]
    dsimp only
    rw [if_neg hkept, hcut, Option.bind_some, hport, Option.bind_some, hinode]
    dsimp only
    rw [if_neg (not_not.mpr rfl)]
    rfl

theorem socketOf_iff : socketOf line = some (address, port, inode) ↔
    ∃ state, SocketLine line address state port inode := by
  constructor
  · intro h
    unfold socketOf at h
    split at h
    · rename_i slot localAddress remote state queues timer retransmits uid timeout inodeText rest
        hfields
      obtain ⟨inode', hinode, h⟩ := Option.bind_eq_some_iff.mp h
      obtain ⟨⟨address', portHex⟩, hcut, h⟩ := Option.bind_eq_some_iff.mp h
      obtain ⟨port', hport, h⟩ := Option.map_eq_some_iff.mp h
      obtain ⟨rfl, rfl, rfl⟩ := h
      exact ⟨state, ⟨_, _, _, _, _, _, _, _, _, _, hfields, ⟨_, hcut, hport⟩, hinode⟩⟩
    · cases h
  · rintro ⟨state, ⟨slot, localAddress, remote, queues, timer, retransmits, uid, timeout,
      inodeText, rest, hfields, ⟨portHex, hcut, hport⟩, hinode⟩⟩
    unfold socketOf
    rw [hfields]
    dsimp only
    rw [hinode, Option.bind_some, hcut, Option.bind_some, hport]
    rfl

end Lines

section Sockets

variable (host : Host) (port : UInt16) (includeUdp : Bool)

def OnPort (inode : ℕ) : Prop :=
  ∃ table ∈ files includeUdp, ∃ raw, host.table table = some raw ∧
    ∃ line ∈ (Mirror.Dnf.lines raw).tail, ∃ address state,
      SocketLine line address state port inode

def Listening (inode : ℕ) : Prop :=
  ∃ table ∈ files includeUdp, ∃ raw, host.table table = some raw ∧
    ∃ line ∈ (Mirror.Dnf.lines raw).tail, ∃ address state,
      SocketLine line address state port inode ∧ (table.isTcp = true → state = "0A".toList)

def Holds (dir : ProcDir) : Prop :=
  ∃ held, fdInodes dir = some held ∧ ∃ inode ∈ held, inode ≠ 0 ∧ OnPort host port includeUdp inode

def ports : List (Protocol × UInt16) := (.tcp, port) :: if includeUdp then [(.udp, port)] else []

theorem files_eq : files includeUdp = (ports port includeUdp).flatMap fun p => p.1.tables := by
  cases includeUdp <;> rfl

theorem mem_listeners {installed : Option Installation} {listener : Listener} :
    listener ∈ listeners host installed port includeUdp → ∃ inode,
      Listening host port includeUdp inode ∧ listener.process = findProcess host inode ∧
        listener.owner = classifyListener host installed (findProcess host inode) := by
  intro h
  obtain ⟨table, htable, h⟩ := List.mem_flatMap.mp h
  cases hraw : host.table table with
  | none =>
    rw [hraw] at h
    exact absurd h List.not_mem_nil
  | some raw =>
    rw [hraw] at h
    obtain ⟨⟨address, inode⟩, hparsed, rfl⟩ := List.mem_map.mp h
    obtain ⟨line, hline, hof⟩ := List.mem_filterMap.mp hparsed
    obtain ⟨state, hsocket, hstate⟩ := listenerOf_iff.mp hof
    exact ⟨inode, ⟨table, htable, raw, hraw, line, hline, address, state, hsocket, hstate⟩,
      rfl, rfl⟩

theorem exists_listener {inode : ℕ} (h : Listening host port includeUdp inode)
    (installed : Option Installation) :
    ∃ listener ∈ listeners host installed port includeUdp,
      listener.owner = classifyListener host installed (findProcess host inode) := by
  obtain ⟨table, htable, raw, hraw, line, hline, address, state, hsocket, hstate⟩ := h
  have hparsed : (address, inode) ∈ parseProcNet raw port table.isTcp :=
    List.mem_filterMap.mpr ⟨line, hline, listenerOf_iff.mpr ⟨state, hsocket, hstate⟩⟩
  refine ⟨⟨table, address, port, findProcess host inode, _⟩, List.mem_flatMap.mpr
    ⟨table, htable, ?_⟩, rfl⟩
  rw [hraw]
  exact List.mem_map.mpr ⟨_, hparsed, rfl⟩

theorem listeners_eq_nil {installed : Option Installation} :
    listeners host installed port includeUdp = [] ↔
      ∀ inode, ¬ Listening host port includeUdp inode := by
  constructor
  · intro h inode hlistening
    obtain ⟨listener, hmem, -⟩ := exists_listener host port includeUdp hlistening installed
    rw [h] at hmem
    exact List.not_mem_nil hmem
  · intro h
    apply List.eq_nil_iff_forall_not_mem.mpr
    intro listener hmem
    obtain ⟨inode, hlistening, -⟩ := mem_listeners host port includeUdp hmem
    exact h inode hlistening

theorem readErrors_eq_nil :
    readErrors host includeUdp = [] ↔ ∀ table ∈ files includeUdp, (host.table table).isSome := by
  rw [readErrors, List.filter_eq_nil_iff]
  simp only [Option.isNone_iff_eq_none, ← Option.isSome_iff_ne_none]

theorem mem_inodes {inode : ℕ} :
    (inode ∈ (ports port includeUdp).flatMap fun p => matchingInodes p.2 (netSockets host p.1)) ↔
      inode ≠ 0 ∧ OnPort host port includeUdp inode := by
  have hport : ∀ p ∈ ports port includeUdp, p.2 = port := by
    cases includeUdp <;> simp [ports]
  constructor
  · intro h
    obtain ⟨p, hp, h⟩ := List.mem_flatMap.mp h
    obtain ⟨⟨address, port', inode'⟩, hsocket, h⟩ := List.mem_filterMap.mp h
    dsimp only at h
    split at h
    · rename_i hmatch
      cases h
      obtain ⟨table, htable, hsocket⟩ := List.mem_flatMap.mp hsocket
      have hfile : table ∈ files includeUdp := by
        rw [files_eq port]
        exact List.mem_flatMap.mpr ⟨p, hp, htable⟩
      cases hraw : host.table table with
      | none =>
        rw [hraw] at hsocket
        exact absurd hsocket List.not_mem_nil
      | some raw =>
        rw [hraw] at hsocket
        obtain ⟨line, hline, hof⟩ := List.mem_filterMap.mp hsocket
        obtain ⟨state, hline'⟩ := socketOf_iff.mp hof
        rw [hmatch.1, hport p hp] at hline'
        exact ⟨hmatch.2, table, hfile, raw, hraw, line, hline, address, state, hline'⟩
    · cases h
  · rintro ⟨hne, table, hfile, raw, hraw, line, hline, address, state, hsocket⟩
    rw [files_eq port] at hfile
    obtain ⟨p, hp, htable⟩ := List.mem_flatMap.mp hfile
    refine List.mem_flatMap.mpr ⟨p, hp, List.mem_filterMap.mpr ⟨(address, port, inode), ?_, ?_⟩⟩
    · refine List.mem_flatMap.mpr ⟨table, htable, ?_⟩
      rw [hraw]
      exact List.mem_filterMap.mpr ⟨line, hline, socketOf_iff.mpr ⟨state, hsocket⟩⟩
    · dsimp only
      rw [if_pos ⟨(hport p hp).symm, hne⟩]

theorem mem_pidsForPorts {pid : UInt32} : pid ∈ pidsForPorts host (ports port includeUdp) ↔
    ∃ dir ∈ host.processes, dir.pid = pid ∧ Holds host port includeUdp dir := by
  have hfound : (∃ dir ∈ host.processes, ((fdInodes dir).bind fun held =>
      if held.any (· ∈ (ports port includeUdp).flatMap fun p =>
        matchingInodes p.2 (netSockets host p.1)) then some dir.pid else none) = some pid) ↔
      ∃ dir ∈ host.processes, dir.pid = pid ∧ Holds host port includeUdp dir := by
    apply exists_congr
    intro dir
    apply and_congr_right
    intro _
    constructor
    · intro h
      obtain ⟨held, hheld, h⟩ := Option.bind_eq_some_iff.mp h
      split at h
      · rename_i hany
        obtain ⟨inode, hmem, hin⟩ := List.any_eq_true.mp hany
        have hin := (mem_inodes host port includeUdp).mp (of_decide_eq_true hin)
        exact ⟨Option.some.inj h, held, hheld, inode, hmem, hin⟩
      · cases h
    · rintro ⟨hpid, held, hheld, inode, hmem, hin⟩
      have hany : held.any (· ∈ (ports port includeUdp).flatMap fun p =>
          matchingInodes p.2 (netSockets host p.1)) = true :=
        List.any_eq_true.mpr ⟨inode, hmem,
          decide_eq_true ((mem_inodes host port includeUdp).mpr hin)⟩
      rw [hheld, Option.bind_some, if_pos hany, hpid]
  rw [← hfound, pidsForPorts]
  dsimp only
  split
  · rename_i hnone
    -- without a socket nobody holds one
    rw [hnone]
    simp
  · rw [List.mem_dedup, List.mem_insertionSort, List.mem_filterMap]

end Sockets

section Answers

variable (host : Host) (installed : Option Installation) (port : UInt16) (includeUdp : Bool)

def Managed (pid : UInt32) : Prop :=
  ∃ installation ∈ installed, ∃ process ∈ host.readProcess pid,
    isManagedRelaxed process installation.root installation.state = true

def OnlyManaged (inode : ℕ) : Prop :=
  (∃ dir ∈ host.processes, dir.shows inode = true) ∧
    ∀ dir ∈ host.processes, dir.shows inode = true → Managed host installed dir.pid

def FirstManaged (inode : ℕ) : Prop :=
  ∃ before dir after, host.processes = before ++ dir :: after ∧
    (∀ earlier ∈ before, earlier.shows inode = false) ∧ dir.shows inode = true ∧
    Managed host installed dir.pid

/-- A process on the port runs the installation's program with another digest than was recorded. -/
def digestDrift : Bool :=
  (pidsForPorts host (ports port includeUdp)).any fun pid =>
    match installed, host.readProcess pid with
    | some installation, some process =>
      isManagedRelaxed process installation.root installation.state &&
        !isManaged process installation.root installation.state
    | _, _ => false

def conflicts : Except InstallError (List UInt32) :=
  checkHostConflicts host installed (ports port includeUdp)
    (digestDrift host installed port includeUdp)

theorem isManagedRelaxed_of_isManaged {process : Process} {root : CanonicalRoot}
    {state : InstallState} (h : isManaged process root state = true) :
    isManagedRelaxed process root state = true := by
  rw [isManaged] at h
  split at h
  · cases h
  · split at h
    · cases h
    · exact h

theorem isOurs_classifyProcess {process : Process} {comm : Text} :
    isOurs (classifyProcess process comm installed) = true ↔ ∃ installation ∈ installed,
      isManagedRelaxed process installation.root installation.state = true := by
  have hrest : isOurs (if looksLikeLandscapeWebserver process comm then
      ListenerOwner.externalInstance else .foreign) = false := by
    split <;> rfl
  cases installed with
  | none =>
    rw [classifyProcess, hrest]
    simp
  | some installation =>
    rw [classifyProcess]
    split
    · rename_i hmanaged
      exact ⟨fun _ => ⟨installation, rfl, isManagedRelaxed_of_isManaged hmanaged⟩, fun _ => rfl⟩
    · split
      · rename_i hrelaxed
        exact ⟨fun _ => ⟨installation, rfl, hrelaxed⟩, fun _ => rfl⟩
      · rename_i hrelaxed
        rw [hrest]
        constructor
        · intro h
          cases h
        · rintro ⟨_, hsame, h⟩
          cases hsame
          exact absurd h hrelaxed

theorem firstManaged_iff {inode : ℕ} : FirstManaged host installed inode ↔
    isOurs (classifyListener host installed (findProcess host inode)) = true := by
  rw [findProcess]
  cases hfind : host.processes.find? (·.shows inode) with
  | none =>
    constructor
    · rintro ⟨before, dir, after, hsplit, -, hshows, -⟩
      have hdir : dir ∈ host.processes := by simp [hsplit]
      exact absurd hshows (List.find?_eq_none.mp hfind dir hdir)
    · intro h
      cases h
  | some dir =>
    obtain ⟨hshows, before, after, hsplit, hbefore⟩ := List.find?_eq_some_iff_append.mp hfind
    simp only [Bool.not_eq_true'] at hbefore
    have hclass : isOurs (classifyListener host installed
        (some ((dir.comm.map Mirror.trim).getD [], dir.pid))) = true ↔
        Managed host installed dir.pid := by
      rw [classifyListener, Managed]
      cases host.readProcess dir.pid with
      | none =>
        constructor
        · intro h
          cases h
        · rintro ⟨_, _, _, h, _⟩
          cases h
      | some process =>
        dsimp only
        rw [isOurs_classifyProcess]
        simp
    rw [Option.map_some, hclass]
    constructor
    · rintro ⟨before', dir', after', hsplit', hbefore', hshows', hmanaged⟩
      -- there is one first process only
      have hsame : host.processes.find? (·.shows inode) = some dir' :=
        List.find?_eq_some_iff_append.mpr ⟨hshows', before', after', hsplit', fun earlier h => by
          rw [hbefore' earlier h]
          rfl⟩
      rw [hfind] at hsame
      cases hsame
      exact hmanaged
    · intro hmanaged
      exact ⟨before, dir, after, hsplit, hbefore, hshows, hmanaged⟩

theorem passes_buildPortResult (found : List Listener) :
    (buildPortResult port found).passes = true ↔ ∀ listener ∈ found, isOurs listener.owner := by
  rw [buildPortResult]
  split
  · rename_i hnil
    subst hnil
    simp [CheckResult.passes]
  · split
    · rename_i hours
      have hall := List.all_eq_true.mp hours
      constructor
      · intro _
        exact hall
      · intro _
        split <;> rfl
    · rename_i hours
      constructor
      · intro h
        -- both reports say that the port is occupied
        split at h <;> cases h
      · intro h
        exact absurd (List.all_eq_true.mpr h) hours

theorem passes_iff : (portCheck host installed port includeUdp).passes = true ↔
    ((∀ table ∈ files includeUdp, (host.table table).isSome) ∨
      ∃ inode, Listening host port includeUdp inode) ∧
      ∀ inode, Listening host port includeUdp inode → FirstManaged host installed inode := by
  have hours : (∀ listener ∈ listeners host installed port includeUdp, isOurs listener.owner) ↔
      ∀ inode, Listening host port includeUdp inode → FirstManaged host installed inode := by
    constructor
    · intro h inode hlistening
      obtain ⟨listener, hmem, howner⟩ := exists_listener host port includeUdp hlistening installed
      apply (firstManaged_iff host installed).mpr
      rw [← howner]
      exact h listener hmem
    · intro h listener hmem
      obtain ⟨inode, hlistening, -, howner⟩ := mem_listeners host port includeUdp hmem
      rw [howner]
      exact (firstManaged_iff host installed).mp (h inode hlistening)
  have hnil : listeners host installed port includeUdp = [] ↔
      ∀ inode, ¬ Listening host port includeUdp inode := listeners_eq_nil host port includeUdp
  rw [portCheck]
  split
  · rename_i hunread
    constructor
    · intro h
      cases h
    · rintro ⟨hread | ⟨inode, hlistening⟩, -⟩
      · exact absurd ((readErrors_eq_nil host includeUdp).mpr hread) hunread.2
      · exact absurd hlistening (hnil.mp hunread.1 inode)
  · rename_i hread
    have hsome : (∀ table ∈ files includeUdp, (host.table table).isSome) ∨
        ∃ inode, Listening host port includeUdp inode := by
      by_contra hno
      rw [not_or, not_exists] at hno
      exact hread ⟨hnil.mpr hno.2, fun h => hno.1 ((readErrors_eq_nil host includeUdp).mp h)⟩
    have hpasses := passes_buildPortResult port (listeners host installed port includeUdp)
    rw [hours] at hpasses
    exact ⟨fun h => ⟨hsome, hpasses.mp h⟩, fun h => hpasses.mpr h.2⟩

theorem checkConflictsWith_ok {installation : Installation} {asked : List (Protocol × UInt16)}
    {allowShaDrift : Bool} :
    (∃ pids, checkConflictsWith host installation asked allowShaDrift = .ok pids) ↔
      ∀ pid ∈ pidsForPorts host asked, isConfirmed host installation allowShaDrift pid = true := by
  rw [checkConflictsWith]
  have hnil : (pidsForPorts host asked).filter
      (fun pid => !isConfirmed host installation allowShaDrift pid) = [] ↔
      ∀ pid ∈ pidsForPorts host asked, isConfirmed host installation allowShaDrift pid = true := by
    rw [List.filter_eq_nil_iff]
    simp only [Bool.not_eq_true', Bool.not_eq_false]
  split
  · rename_i hsome
    constructor
    · rintro ⟨pids, h⟩
      cases h
    · intro h
      exact absurd (hnil.mpr h) hsome
  · rename_i hnone
    exact ⟨fun _ => hnil.mp (not_not.mp hnone), fun _ => ⟨_, rfl⟩⟩

theorem confirmed_iff {installation : Installation} :
    (∀ pid ∈ pidsForPorts host (ports port includeUdp), isConfirmed host installation
        (digestDrift host (some installation) port includeUdp) pid = true) ↔
      ∀ pid ∈ pidsForPorts host (ports port includeUdp), Managed host (some installation) pid := by
  constructor
  · intro h pid hpid
    have hconfirmed := h pid hpid
    rw [isConfirmed] at hconfirmed
    split at hconfirmed
    · cases hconfirmed
    · rename_i process hprocess
      refine ⟨installation, rfl, process, hprocess, ?_⟩
      rw [Bool.or_eq_true, Bool.and_eq_true] at hconfirmed
      rcases hconfirmed with hmanaged | ⟨-, hrelaxed⟩
      · exact isManagedRelaxed_of_isManaged hmanaged
      · exact hrelaxed
  · intro h pid hpid
    obtain ⟨_, hsame, process, hprocess, hrelaxed⟩ := h pid hpid
    cases hsame
    rw [isConfirmed, hprocess]
    dsimp only
    by_cases hmanaged : isManaged process installation.root installation.state = true
    · rw [hmanaged, Bool.true_or]
    · have hdrift : digestDrift host (some installation) port includeUdp = true := by
        refine List.any_eq_true.mpr ⟨pid, hpid, ?_⟩
        rw [hprocess]
        dsimp only
        rw [hrelaxed, Bool.not_eq_true _ |>.mp hmanaged]
        rfl
      rw [hdrift, hrelaxed, Bool.true_and, Bool.or_true]

theorem conflicts_ok : (∃ pids, conflicts host installed port includeUdp = .ok pids) ↔
    ∀ dir ∈ host.processes, Holds host port includeUdp dir → Managed host installed dir.pid := by
  have hpids : (∀ pid ∈ pidsForPorts host (ports port includeUdp), Managed host installed pid) ↔
      ∀ dir ∈ host.processes, Holds host port includeUdp dir →
        Managed host installed dir.pid := by
    constructor
    · intro h dir hdir hholds
      exact h dir.pid ((mem_pidsForPorts host port includeUdp).mpr ⟨dir, hdir, rfl, hholds⟩)
    · intro h pid hpid
      obtain ⟨dir, hdir, rfl, hholds⟩ := (mem_pidsForPorts host port includeUdp).mp hpid
      exact h dir hdir hholds
  rw [← hpids, conflicts]
  cases installed with
  | none =>
    rw [checkHostConflicts]
    split
    · rename_i hsome
      constructor
      · rintro ⟨pids, h⟩
        cases h
      · intro h
        obtain ⟨pid, hpid⟩ := List.exists_mem_of_ne_nil _ hsome
        obtain ⟨_, hsame, -⟩ := h pid hpid
        cases hsame
    · rename_i hnone
      rw [not_not.mp hnone]
      exact ⟨fun _ pid h => absurd h List.not_mem_nil, fun _ => ⟨[], rfl⟩⟩
  | some installation =>
    rw [← confirmed_iff, ← checkConflictsWith_ok, checkHostConflicts]
    cases digestDrift host (some installation) port includeUdp <;> rfl

end Answers

section Agreement

variable (host : Host) (installed : Option Installation) (port : UInt16) (includeUdp : Bool)

/-- The port passes the one question as it passes the other, and neither with a listener that is
not the installation's. -/
structure PortAgrees : Prop where
  agree : (portCheck host installed port includeUdp).passes = true ↔
    ∃ pids, conflicts host installed port includeUdp = .ok pids
  unmanaged : ∀ inode, Listening host port includeUdp inode → ¬ OnlyManaged host installed inode →
    (portCheck host installed port includeUdp).passes = false ∧
      ∀ pids, conflicts host installed port includeUdp ≠ .ok pids

/-- Every listener is seen with the installation's processes only, and so are the port's other
sockets that are seen with anybody. -/
structure AllManaged : Prop where
  read : (∀ table ∈ files includeUdp, (host.table table).isSome) ∨
    ∃ inode, Listening host port includeUdp inode
  listeners : ∀ inode, Listening host port includeUdp inode → OnlyManaged host installed inode
  others : ∀ dir ∈ host.processes, Holds host port includeUdp dir → Managed host installed dir.pid

/-- Another process holds a socket of the port, and the one that is first seen with some listener,
if any is, is another one as well. -/
structure SeenByBoth : Prop where
  holder : ∃ dir ∈ host.processes, Holds host port includeUdp dir ∧ ¬ Managed host installed dir.pid
  told : (∃ table ∈ files includeUdp, host.table table = none) ∧
      (∀ inode, ¬ Listening host port includeUdp inode) ∨
    ∃ inode, Listening host port includeUdp inode ∧ ¬ FirstManaged host installed inode

variable {host installed} in
theorem OnlyManaged.first {inode : ℕ} (h : OnlyManaged host installed inode) :
    FirstManaged host installed inode := by
  obtain ⟨⟨dir, hdir, hshows⟩, hall⟩ := h
  cases hfind : host.processes.find? (·.shows inode) with
  | none => exact absurd hshows (List.find?_eq_none.mp hfind dir hdir)
  | some first =>
    obtain ⟨hshown, before, after, hsplit, hbefore⟩ := List.find?_eq_some_iff_append.mp hfind
    simp only [Bool.not_eq_true'] at hbefore
    have hfirst : first ∈ host.processes := by
      rw [hsplit]
      exact List.mem_append_right _ (List.mem_cons_self ..)
    exact ⟨before, first, after, hsplit, hbefore, hshown, hall first hfirst hshown⟩

/-- The two questions agree where all that is on the port is the installation's, and where what is
not is seen by both. -/
theorem portAgrees_iff : PortAgrees host installed port includeUdp ↔
    AllManaged host installed port includeUdp ∨ SeenByBoth host installed port includeUdp := by
  have hpasses := passes_iff host installed port includeUdp
  have hok := conflicts_ok host installed port includeUdp
  constructor
  · intro h
    by_cases hpassed : (portCheck host installed port includeUdp).passes = true
    · left
      obtain ⟨hread, -⟩ := hpasses.mp hpassed
      refine ⟨hread, ?_, hok.mp (h.agree.mp hpassed)⟩
      intro inode hlistening
      by_contra hother
      have hrefused := (h.unmanaged inode hlistening hother).1
      rw [hpassed] at hrefused
      cases hrefused
    · right
      have hrefused : ¬ ∃ pids, conflicts host installed port includeUdp = .ok pids :=
        fun h' => hpassed (h.agree.mpr h')
      rw [hok] at hrefused
      push Not at hrefused
      refine ⟨hrefused, ?_⟩
      by_cases hfirst : ∀ inode, Listening host port includeUdp inode →
          FirstManaged host installed inode
      · left
        have hread : ¬ ((∀ table ∈ files includeUdp, (host.table table).isSome) ∨
            ∃ inode, Listening host port includeUdp inode) :=
          fun h' => hpassed (hpasses.mpr ⟨h', hfirst⟩)
        rw [not_or, not_exists] at hread
        refine ⟨?_, hread.2⟩
        have hunread := hread.1
        push Not at hunread
        obtain ⟨table, hfile, hnone⟩ := hunread
        exact ⟨table, hfile, Option.not_isSome_iff_eq_none.mp hnone⟩
      · right
        push Not at hfirst
        exact hfirst
  · rintro (hall | hboth)
    · have hpassed : (portCheck host installed port includeUdp).passes = true :=
        hpasses.mpr ⟨hall.read, fun inode h => (hall.listeners inode h).first⟩
      exact ⟨⟨fun _ => hok.mpr hall.others, fun _ => hpassed⟩,
        fun inode hlistening hother => absurd (hall.listeners inode hlistening) hother⟩
    · obtain ⟨dir, hdir, hholds, hother⟩ := hboth.holder
      have hrefused : ¬ ∃ pids, conflicts host installed port includeUdp = .ok pids :=
        fun h => hother (hok.mp h dir hdir hholds)
      have hnot : ¬ (portCheck host installed port includeUdp).passes = true := by
        intro hpassed
        obtain ⟨hread, hfirst⟩ := hpasses.mp hpassed
        rcases hboth.told with ⟨⟨table, hfile, hnone⟩, hsilent⟩ | ⟨inode, hlistening, hnotFirst⟩
        · rcases hread with hread | ⟨inode, hlistening⟩
          · have hsome := hread table hfile
            rw [hnone] at hsome
            cases hsome
          · exact hsilent inode hlistening
        · exact hnotFirst (hfirst inode hlistening)
      refine ⟨⟨fun h => absurd h hnot, fun h => absurd h hrefused⟩, fun _ _ _ => ⟨?_, ?_⟩⟩
      · exact Bool.not_eq_true _ |>.mp hnot
      · exact fun pids h => hrefused ⟨pids, h⟩

end Agreement

section Disagreement

def listeningTable : Text :=
  "  sl  local_address rem_address   st tx_queue rx_queue\n".toList ++
    "   0: 00000000:189C 00000000:0000 0A 0:0 00:0 0 0 0 77 1 0 100\n".toList

example : parseProcNet listeningTable 6300 true = [("00000000".toList, 77)] := by
  unfold listeningTable
  repeat rewrite [String.toList_ofList]
  decide +kernel

def managedInstallation : Installation := ⟨srvRoot, stateOf123⟩

def managedProcess : Process where
  exeLink := "/srv/l/releases/1.2.3/landscape-webserver".toList
  exeSha256 := some "d1".toList
  args := ["landscape-webserver".toList, "--config-dir".toList, "/srv/l/data".toList,
    "--web".toList, "/srv/l/current/static".toList]

def readable (table : Table) : Option Text := if table = .tcp then some listeningTable else some []

def holder (pid : UInt32) : ProcDir := ⟨pid, some "sh".toList, some [.link "socket:[77]".toList]⟩

def orphanHost : Host := ⟨readable, [⟨20, some "sh".toList, none⟩], fun _ => none⟩

def sharedHost : Host where
  table := readable
  processes := [holder 20, holder 21]
  readProcess pid :=
    if pid = 20 then some managedProcess
    else some ⟨"/bin/sh".toList, some "d2".toList, ["sh".toList]⟩

/-- A listener nobody is seen with passes the conflict check alone, and one that the managed
process shares passes `lkit check` alone. -/
theorem not_portAgrees : ¬ PortAgrees orphanHost (some managedInstallation) 6300 false ∧
    ¬ PortAgrees sharedHost (some managedInstallation) 6300 false := by
  constructor
  · intro h
    have hok : conflicts orphanHost (some managedInstallation) 6300 false = .ok [] := by
      delta orphanHost readable listeningTable
      repeat rewrite [String.toList_ofList]
      decide +kernel
    have hpassed := h.agree.mpr ⟨[], hok⟩
    revert hpassed
    delta orphanHost readable listeningTable
    repeat rewrite [String.toList_ofList]
    decide +kernel
  · intro h
    have hpassed : (portCheck sharedHost (some managedInstallation) 6300 false).passes = true := by
      delta sharedHost readable listeningTable
      repeat rewrite [String.toList_ofList]
      decide +kernel
    have herror : conflicts sharedHost (some managedInstallation) 6300 false =
        .error (.processConflict [(.tcp, 6300)] [21]) := by
      delta sharedHost readable listeningTable
      repeat rewrite [String.toList_ofList]
      decide +kernel
    obtain ⟨pids, hok⟩ := h.agree.mp hpassed
    rw [herror] at hok
    cases hok

end Disagreement

end LandscapeKit.Check.Ports
