import KaiOs.Syncd.Peer
import KaiOs.Syncd.SyncedRuns

/-! Sources and sinks of `syncd/src/bin/kai-sync-node.rs`, with connections that break and
sinks that are killed and restarted: an acknowledged state is on the sink's disk. -/
namespace KaiOs.Syncd
open Utf8 Network

section
variable (ι : Type)

/-- One call of `send_and_await_ack`. -/
structure Request where
  sink : ι
  store : StateStore
  height : UInt64
  tip : String
  sending : SendIo

/-- A connection, with the bytes its sink has put on it. -/
structure Connection where
  request : Request ι
  accepted : Bool
  toSource : Bytes

/-- Where the loop of a sink stands. -/
inductive SinkState where
  | down
  | listening (ps : PersistentState)
  | serving (ps : PersistentState) (c : ℕ)
  | persisting (ps : PersistentState) (c : ℕ) (snap : SyncSnapshot)
  | acking (ps : PersistentState) (c : ℕ)

structure System where
  disks : ι → Disk
  sinks : ι → SinkState
  conns : ℕ → Option (Connection ι)

end

variable {ι : Type}

section
variable (E : SyncdExternals)

def Request.snapshot (r : Request ι) : SyncSnapshot :=
  snapshotFromStore E.toExternals r.store r.height r.tip

/-- What the source puts on a connection; it does so before it reads. -/
def Connection.toSink (conn : Connection ι) : Bytes :=
  (sendAndAwaitAck E conn.request.store conn.request.height conn.request.tip
    conn.request.sending []).1

def SinkState.received (ps : PersistentState) (c : ℕ) : Except SyncError SyncSnapshot → SinkState
  | .ok snap => .persisting ps c snap
  | .error _ => .listening ps

def SinkState.persisted (ps : PersistentState) (c : ℕ) : Outcome SyncError Unit → SinkState
  | .ok () => .acking ps c
  | .err _ => .listening ps
  | .panicked => .down

/-- A sink that has acknowledged exits, one that could not goes on listening. -/
def SinkState.acked (ps : PersistentState) : Except TcpError Unit → SinkState
  | .ok () => .down
  | .error _ => .listening ps

namespace System
variable [DecidableEq ι] (s : System ι)

def put (i : ι) (disk : Disk) (sink : SinkState) : System ι :=
  { s with disks := Function.update s.disks i disk, sinks := Function.update s.sinks i sink }

def setConn (c : ℕ) (conn : Connection ι) : System ι :=
  { s with conns := Function.update s.conns c (some conn) }

def request (c : ℕ) : Option (Request ι) := (s.conns c).map Connection.request

end System

variable [DecidableEq ι]

inductive Step : System ι → System ι → Prop where
  | boot {s i ps disk} : s.sinks i = .down →
      PersistentState.openState E.toExternals (s.disks i) = .ok (ps, disk) →
      Step s (s.put i disk (.listening ps))
  -- a source calls, for the first time or in a retry
  | connect {s} (c : ℕ) (request : Request ι) : s.conns c = none →
      Step s (s.setConn c ⟨request, false, []⟩)
  | accept {s i ps c conn} : s.sinks i = .listening ps → s.conns c = some conn →
      conn.request.sink = i → conn.accepted = false →
      Step s ((s.put i (s.disks i) (.serving ps c)).setConn c { conn with accepted := true })
  -- the connection may break at any byte
  | receive {s i ps c conn} (reads : Incoming) : s.sinks i = .serving ps c →
      s.conns c = some conn → delivered reads <+: conn.toSink E →
      Step s (s.put i (s.disks i) (.received ps c (receiveAndVerify E reads)))
  | persist {s i ps c snap ps' disk result} : s.sinks i = .persisting ps c snap →
      persistVerified E.toExternals ps (s.disks i) snap .ok .ok = (ps', disk, result) →
      Step s (s.put i disk (.persisted ps' c result))
  -- killed behind the marker: the snapshot file is written in part, or not at all
  | killInPersist {s i ps c snap} (io : WriteIo) : s.sinks i = .persisting ps c snap →
      Step s (s.put i (persistVerified E.toExternals ps (s.disks i) snap .ok io).2.1 .down)
  | ack {s i ps c conn} (io : SendIo) : s.sinks i = .acking ps c → s.conns c = some conn →
      Step s ((s.put i (s.disks i)
          (.acked ps (send (E.ack.toVec ⟨ps.store.stateRoot E.shaHex⟩) io).2)).setConn c
        { conn with toSource := (send (E.ack.toVec ⟨ps.store.stateRoot E.shaHex⟩) io).1 })
  | kill {s} (i : ι) : Step s (s.put i (s.disks i) .down)

/-- At first there is no process and no connection; the logs are whole. -/
structure Initial (s : System ι) : Prop where
  down : ∀ i, s.sinks i = .down
  unconnected : ∀ c, s.conns c = none
  whole : ∀ i, ∃ log, Written E.toExternals (s.disks i) log

/-- A run, by the states it has gone through, the latest one first. -/
inductive Run : List (System ι) → Prop where
  | start {s} : Initial E s → Run [s]
  | step {s s' past} : Run (s :: past) → Step E s s' → Run (s' :: s :: past)

/-- What a restart finds on the disk. -/
def Recovers (disk : Disk) (store : StateStore) : Prop :=
  ∃ ps disk', PersistentState.openState E.toExternals disk = .ok (ps, disk') ∧ ps.store = store

/-- A process whose handle stands at the end of a whole log. -/
def AtEnd (disk : Disk) (ps : PersistentState) : Prop :=
  ∃ log, Written E.toExternals disk log ∧ Follows E.toExternals ps log

/-- What holds of a sink at every place of its loop. -/
def SinkOk (requests : ℕ → Option (Request ι)) (i : ι) (disk : Disk) : SinkState → Prop
  | .down => ∃ log, Written E.toExternals disk log
  | .listening ps => AtEnd E disk ps
  | .serving ps c => AtEnd E disk ps ∧ ∃ r, requests c = some r ∧ r.sink = i
  | .persisting ps c snap =>
      AtEnd E disk ps ∧ ∃ r, requests c = some r ∧ r.sink = i ∧ snap = r.snapshot E
  | .acking ps c => AtEnd E disk ps ∧ ∃ r, requests c = some r ∧ r.sink = i ∧ Recovers E disk r.store

/-- What has been acknowledged was durable in one of the states. -/
structure Inv (s : System ι) (past : List (System ι)) : Prop where
  sinks : ∀ i, SinkOk E s.request i (s.disks i) (s.sinks i)
  acked : ∀ c conn, s.conns c = some conn → conn.toSource ≠ [] →
    ∃ t ∈ s :: past, Recovers E (t.disks conn.request.sink) conn.request.store

end

variable {E : SyncdExternals}

theorem AtEnd.whole {disk : Disk} {ps : PersistentState} (stands : AtEnd E disk ps) :
    ∃ log, Written E.toExternals disk log := by
  obtain ⟨log, written, _⟩ := stands
  exact ⟨log, written⟩

theorem SinkOk.whole {requests : ℕ → Option (Request ι)} {i : ι} {disk : Disk} {sink : SinkState}
    (ok : SinkOk E requests i disk sink) : ∃ log, Written E.toExternals disk log := by
  cases sink with
  | down => exact ok
  | listening ps => exact AtEnd.whole ok
  | serving ps c => exact ok.1.whole
  | persisting ps c snap => exact ok.1.whole
  | acking ps c => exact ok.1.whole

theorem SinkOk.mono {requests requests' : ℕ → Option (Request ι)} {i : ι} {disk : Disk}
    {sink : SinkState} (grow : ∀ c r, requests c = some r → requests' c = some r)
    (ok : SinkOk E requests i disk sink) : SinkOk E requests' i disk sink := by
  cases sink with
  | down => exact ok
  | listening ps => exact ok
  | serving ps c =>
      obtain ⟨stands, r, known, rest⟩ := ok
      exact ⟨stands, r, grow c r known, rest⟩
  | persisting ps c snap =>
      obtain ⟨stands, r, known, rest⟩ := ok
      exact ⟨stands, r, grow c r known, rest⟩
  | acking ps c =>
      obtain ⟨stands, r, known, rest⟩ := ok
      exact ⟨stands, r, grow c r known, rest⟩

section Sink
variable {disk disk' : Disk} {ps ps' : PersistentState}

/-- However a write of the snapshot ends, the log has got its marker whole. -/
theorem persist_whole (stands : AtEnd E disk ps) {snap : SyncSnapshot} {store : StateStore}
    (verified : verifySnapshot E.toExternals snap = .ok store) (io : WriteIo) :
    ∃ log, Written E.toExternals (persistVerified E.toExternals ps disk snap .ok io).2.1 log := by
  obtain ⟨log, written, follows⟩ := stands
  have rebuilt : Follows E.toExternals ⟨store, ps.wal⟩ log := follows
  rw [(persistVerified_eq ps disk verified .ok io).2,
    (checkpoint_eq rebuilt written snap.height snap.tipBlockHash io).2]
  exact ⟨_, rfl⟩

/-- A verified snapshot that has been persisted is what a restart finds. -/
theorem persist_recovers (format : E.record.LineFormat) (trip : E.snapshot.RoundTrips)
    (stands : AtEnd E disk ps) {snap : SyncSnapshot} {store : StateStore}
    (verified : verifySnapshot E.toExternals snap = .ok store) {result : Outcome SyncError Unit}
    (persisted : persistVerified E.toExternals ps disk snap .ok .ok = (ps', disk', result)) :
    result = .ok () ∧ AtEnd E disk' ps' ∧ Recovers E disk' store := by
  obtain ⟨log, written, follows⟩ := stands
  have done : result = .ok () := by
    rw [← persistVerified_ok trip ps disk verified, persisted]
  rw [done] at persisted
  obtain ⟨entries, saved⟩ := sync_saved trip follows written persisted
  obtain ⟨ps'', disk'', opened, recovered⟩ := saved.open format
  refine ⟨done, ⟨_, saved.written, saved.follows⟩, ps'', disk'', opened, ?_⟩
  rw [recovered, entries]
  exact (verifySnapshot_ok.mp verified).1.symm

end Sink

theorem System.request_of {s : System ι} {c : ℕ} {conn : Connection ι}
    (known : s.conns c = some conn) : s.request c = some conn.request := by
  rw [System.request, known, Option.map_some]

theorem System.setConn_request {s : System ι} {c : ℕ} {old conn : Connection ι}
    (known : s.conns c = some old) (same : conn.request = old.request) :
    (s.setConn c conn).request = s.request := by
  funext d
  simp only [System.request, System.setConn]
  by_cases here : d = c
  · rw [here, Function.update_self, known, Option.map_some, Option.map_some, same]
  · rw [Function.update_of_ne here]

theorem System.setConn_conns {s : System ι} {c d : ℕ} {conn conn' : Connection ι}
    (found : (s.setConn c conn).conns d = some conn') :
    (d = c ∧ conn' = conn) ∨ s.conns d = some conn' := by
  simp only [System.setConn] at found
  by_cases here : d = c
  · rw [here, Function.update_self] at found
    exact .inl ⟨here, (Option.some.inj found).symm⟩
  · rw [Function.update_of_ne here] at found
    exact .inr found

variable [DecidableEq ι]

theorem System.put_disks (s : System ι) (i : ι) (disk : Disk) (sink : SinkState) :
    (s.put i disk sink).disks i = disk := by
  simp only [System.put, Function.update_self]

theorem Inv.put {s s' : System ι} {past : List (System ι)} (inv : Inv E s past) {i : ι}
    {disk : Disk} {sink : SinkState}
    (disks : s'.disks = Function.update s.disks i disk)
    (sinks : s'.sinks = Function.update s.sinks i sink) (requests : s'.request = s.request)
    (here : SinkOk E s.request i disk sink)
    (acked : ∀ c conn, s'.conns c = some conn → conn.toSource ≠ [] →
      ∃ t ∈ s :: past, Recovers E (t.disks conn.request.sink) conn.request.store) :
    Inv E s' (s :: past) where
  sinks j := by
    rw [disks, sinks, requests]
    by_cases same : j = i
    · rw [same, Function.update_self, Function.update_self]
      exact here
    · rw [Function.update_of_ne same, Function.update_of_ne same]
      exact inv.sinks j
  acked c conn known sent := by
    obtain ⟨t, member, recovers⟩ := acked c conn known sent
    exact ⟨t, List.mem_cons_of_mem _ member, recovers⟩

section Runs
variable (format : E.record.LineFormat) (trip : E.snapshot.RoundTrips)
  (syncTrip : E.sync.RoundTrips) (syncPrefixes : E.sync.RejectsPrefixes)
include format trip syncTrip syncPrefixes

theorem Step.inv {s s' : System ι} {past : List (System ι)} (inv : Inv E s past)
    (step : Step E s s') : Inv E s' (s :: past) := by
  cases step with
  | @boot i ps disk down opened =>
      obtain ⟨log, written⟩ := (inv.sinks i).whole
      obtain ⟨follows, written'⟩ := openState_follows format written opened
      exact inv.put rfl rfl rfl ⟨log, written', follows⟩ inv.acked
  | connect c request fresh =>
      have grow : ∀ d r, s.request d = some r →
          (s.setConn c ⟨request, false, []⟩).request d = some r := by
        intro d r known
        simp only [System.request, System.setConn] at known ⊢
        by_cases here : d = c
        · rw [here, fresh] at known
          cases known
        · rw [Function.update_of_ne here, known]
      refine ⟨fun i => (inv.sinks i).mono grow, ?_⟩
      intro d conn known sent
      rcases System.setConn_conns known with ⟨_, rfl⟩ | old
      · exact absurd rfl sent
      · obtain ⟨t, member, recovers⟩ := inv.acked d conn old sent
        exact ⟨t, List.mem_cons_of_mem _ member, recovers⟩
  | @accept i ps c conn listening known addressed waiting =>
      have ok := inv.sinks i
      rw [listening] at ok
      have there : (s.put i (s.disks i) (.serving ps c)).conns c = some conn := known
      refine inv.put rfl rfl (System.setConn_request there rfl)
        ⟨ok, conn.request, System.request_of known, addressed⟩ ?_
      intro d conn' found sent
      rcases System.setConn_conns found with ⟨_, rfl⟩ | old
      · exact inv.acked c conn known sent
      · exact inv.acked d conn' old sent
  | @receive i ps c conn reads serving known arrived =>
      have ok := inv.sinks i
      rw [serving] at ok
      obtain ⟨stands, r, asked, addressed⟩ := ok
      refine inv.put rfl rfl rfl ?_ inv.acked
      cases received : receiveAndVerify E reads with
      | error e => exact stands
      | ok snap =>
          cases (System.request_of known).symm.trans asked
          have begun := arrived.trans (outgoing_begins _ _ _ _ _)
          exact ⟨stands, conn.request, asked, addressed,
            receiveAndVerify_sent syncTrip syncPrefixes begun received⟩
  | @persist i ps c snap ps' disk result persisting persisted =>
      have ok := inv.sinks i
      rw [persisting] at ok
      obtain ⟨stands, r, asked, addressed, rfl⟩ := ok
      have verified := snapshotFromStore_verifies (E := E.toExternals) r.store r.height r.tip
      obtain ⟨done, stands', recovers⟩ := persist_recovers format trip stands verified persisted
      rw [done]
      exact inv.put rfl rfl rfl ⟨stands', r, asked, addressed, recovers⟩ inv.acked
  | @killInPersist i ps c snap io persisting =>
      have ok := inv.sinks i
      rw [persisting] at ok
      obtain ⟨stands, r, asked, addressed, rfl⟩ := ok
      have verified := snapshotFromStore_verifies (E := E.toExternals) r.store r.height r.tip
      exact inv.put rfl rfl rfl (persist_whole stands verified io) inv.acked
  | @ack i ps c conn io acking known =>
      have ok := inv.sinks i
      rw [acking] at ok
      obtain ⟨stands, r, asked, addressed, recovers⟩ := ok
      cases (System.request_of known).symm.trans asked
      refine inv.put rfl rfl (System.setConn_request known rfl) ?_ ?_
      · cases io with
        | ok => exact stands.whole
        | fails n => exact stands
      · intro d conn' found sent
        rcases System.setConn_conns found with ⟨_, rfl⟩ | old
        · exact ⟨s, List.mem_cons_self, by rw [addressed]; exact recovers⟩
        · exact inv.acked d conn' old sent
  | kill i => exact inv.put rfl rfl rfl (inv.sinks i).whole inv.acked

theorem Run.inv {s : System ι} {past : List (System ι)} (run : Run E (s :: past)) : Inv E s past := by
  generalize same : s :: past = states at run
  induction run generalizing s past with
  | start initial =>
      cases same
      constructor
      · intro i
        rw [initial.down]
        exact initial.whole i
      · intro c conn known _
        rw [initial.unconnected] at known
        cases known
  | step _ step ih =>
      cases same
      exact step.inv format trip syncTrip syncPrefixes (ih rfl)

/-- When a source has its ack, the disk of its sink has held the source's state in such
a way that a restart finds it. -/
theorem acked_durable {s : System ι} {past : List (System ι)} (run : Run E (s :: past)) {c : ℕ}
    {conn : Connection ι} (known : s.conns c = some conn) {reads : Incoming}
    (arrived : delivered reads <+: conn.toSource)
    (acked : (sendAndAwaitAck E conn.request.store conn.request.height conn.request.tip
      conn.request.sending reads).2 = .ok ()) :
    ∃ t ∈ s :: past, ∃ ps disk,
      PersistentState.openState E.toExternals (t.disks conn.request.sink) = .ok (ps, disk) ∧
        ps.store = conn.request.store := by
  obtain ⟨bytes, left, more, ack, received, _, _⟩ := ack_of_ok acked
  refine (run.inv format trip syncTrip syncPrefixes).acked c conn known ?_
  intro nothing
  rw [nothing, List.prefix_nil] at arrived
  exact delivered_of_receive received arrived

end Runs

section First

def firstRequest : Request Unit := ⟨(), StateStore.new.apply (.set "a" "1"), 1, "t", .ok⟩

def firstIdle : System Unit where
  disks _ := ⟨none, none⟩
  sinks _ := .down
  conns _ := none

def firstBoot : System Unit :=
  firstIdle.put () ⟨some [], none⟩ (.listening ⟨.new, WriteAheadLog.genesis⟩)

def firstAccepted : System Unit :=
  ((firstBoot.setConn 0 ⟨firstRequest, false, []⟩).put () ⟨some [], none⟩
    (.serving ⟨.new, WriteAheadLog.genesis⟩ 0)).setConn 0 ⟨firstRequest, true, []⟩

def firstReceived : System Unit :=
  firstAccepted.put () ⟨some [], none⟩ (.persisting ⟨.new, WriteAheadLog.genesis⟩ 0 firstSnapshot)

def firstPersisted : System Unit := firstReceived.put () firstSync.2.1 (.acking firstSync.1 0)

def firstAck : Bytes := frame (jsonSync.ack.toVec ⟨firstRequest.store.stateRoot jsonSync.shaHex⟩)

def firstAcked : System Unit :=
  (firstPersisted.put () firstSync.2.1 .down).setConn 0 ⟨firstRequest, true, firstAck⟩

theorem firstSnapshot_small : (jsonSync.sync.toVec firstSnapshot).length ≤ maxFrame := by
  decide +kernel

theorem firstAck_small :
    (jsonSync.ack.toVec ⟨firstRequest.store.stateRoot jsonSync.shaHex⟩).length ≤ maxFrame := by
  decide +kernel

theorem firstReceived_run : Run jsonSync [firstReceived, firstAccepted,
    firstBoot.setConn 0 ⟨firstRequest, false, []⟩, firstBoot, firstIdle] := by
  have opened : PersistentState.openState jsonNode ⟨none, none⟩ =
      .ok (⟨.new, WriteAheadLog.genesis⟩, ⟨some [], none⟩) := rfl
  have start : Initial jsonSync firstIdle :=
    ⟨fun _ => rfl, fun _ => rfl, fun _ => ⟨[], rfl⟩⟩
  have booted := (Run.start start).step (.boot (i := ()) rfl opened)
  have connected := booted.step (.connect 0 firstRequest rfl)
  have accepted := connected.step (.accept (i := ()) (c := 0) rfl rfl rfl rfl)
  have sent : Connection.toSink jsonSync ⟨firstRequest, true, []⟩ =
      frame (jsonSync.sync.toVec firstSnapshot) := outgoing_eq _ _ _ _ _
  have whole : delivered [some (frame (jsonSync.sync.toVec firstSnapshot))] <+:
      Connection.toSink jsonSync ⟨firstRequest, true, []⟩ := by
    rw [sent]
    exact delivered_one _
  have received := accepted.step (.receive (i := ()) (c := 0) _ rfl rfl whole)
  have taken : receiveAndVerify jsonSync [some (frame (jsonSync.sync.toVec firstSnapshot))] =
      .ok firstSnapshot :=
    receiveAndVerify_frame jsonSync_sync_roundTrips _ _ _ firstSnapshot_small
  rw [taken] at received
  exact received

theorem firstAcked_run : Run jsonSync [firstAcked, firstPersisted, firstReceived, firstAccepted,
    firstBoot.setConn 0 ⟨firstRequest, false, []⟩, firstBoot, firstIdle] := by
  have persisted := firstReceived_run.step (.persist (i := ()) rfl firstSync_ok)
  have same : firstSync.1.store = firstRequest.store := firstSync_store
  have acked := persisted.step (.ack (i := ()) (c := 0) .ok rfl rfl)
  have sent : send (jsonSync.ack.toVec ⟨firstRequest.store.stateRoot jsonSync.shaHex⟩) .ok =
      (firstAck, .ok ()) := rfl
  rw [same, sent, System.put_disks] at acked
  exact acked

/-- A sync that nothing disturbs. -/
theorem acked_durable_first :
    (sendAndAwaitAck jsonSync firstRequest.store firstRequest.height firstRequest.tip
      firstRequest.sending [some firstAck]).2 = .ok () ∧
    ∃ t ∈ [firstAcked, firstPersisted, firstReceived, firstAccepted,
        firstBoot.setConn 0 ⟨firstRequest, false, []⟩, firstBoot, firstIdle],
      ∃ ps disk, PersistentState.openState jsonNode (t.disks ()) = .ok (ps, disk) ∧
        ps.store = firstRequest.store := by
  have done := sendAndAwaitAck_frame jsonSync_ack_roundTrips firstRequest.store
    firstRequest.height firstRequest.tip firstAck_small
  have known : firstAcked.conns 0 = some ⟨firstRequest, true, firstAck⟩ := by
    simp only [firstAcked, System.setConn, Function.update_self]
  exact ⟨done, acked_durable (E := jsonSync) jsonWal_format jsonNode_roundTrips jsonSync_sync_roundTrips
    jsonSync_sync_rejectsPrefixes firstAcked_run known
    (delivered_one firstAck) done⟩

end First
end KaiOs.Syncd
