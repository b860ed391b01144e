import KaiOs.Syncd.Source

/-! The source of `syncd/src/bin/kai-sync-node.rs` together with its sinks. What it says is so, and no history of
kills keeps it from its end. -/
namespace KaiOs.Syncd
open Utf8 Network WriteAheadLog
open Relation (ReflTransGen)

structure Cluster (ι : Type) where
  source : SourceNode
  sinks : System ι

section
variable {ι : Type} [DecidableEq ι] (E : SyncdExternals) (args : Args ι)

/-- What the source asks of its peer. -/
def Args.request (peer : ι) (store : StateStore) (io : SendIo) : Request ι := ⟨peer, store, 1, tipName, io⟩

/-- The source, or the sinks with whatever other sources connect to them, or the two over a connection. -/
inductive ClusterStep : Cluster ι → Cluster ι → Prop where
  | source {c node} : SourceStep E args c.source node → ClusterStep c { c with source := node }
  | sinks {c sinks} : Step E c.sinks sinks → ClusterStep c { c with sinks := sinks }
  | call {c ps attempt peer} (d : ℕ) (io : SendIo) : c.source.state = .syncing ps attempt → args.peer = some peer →
      c.sinks.conns d = none →
      ClusterStep c ⟨{ c.source with state := .awaiting ps attempt d },
        c.sinks.setConn d ⟨Args.request peer ps.store io, false, []⟩⟩
  | answer {c ps attempt d conn} (reads : Incoming) : c.source.state = .awaiting ps attempt d →
      c.sinks.conns d = some conn → delivered reads <+: conn.toSource →
      ClusterStep c ⟨c.source.answered E args ps attempt
        (sendAndAwaitAck E ps.store 1 tipName conn.request.sending reads).2, c.sinks⟩

/-- The source starts on the disk of a node that is down; the sinks are at their start. -/
structure ClusterStart (log₀ : List WalOp) (c : Cluster ι) : Prop where
  disk : Reaches E.toExternals c.source.disk none log₀
  down : c.source.state = .ended none
  silent : c.source.said = []
  sinks : Initial E c.sinks

/-- A run, by the states it has gone through, the latest one first. -/
inductive ClusterRun (log₀ : List WalOp) : List (Cluster ι) → Prop where
  | start {c} : ClusterStart E log₀ c → ClusterRun log₀ [c]
  | step {c c' past} : ClusterRun log₀ (c :: past) → ClusterStep E args c c' → ClusterRun log₀ (c' :: c :: past)

/-- An awaited connection carries the request of the source. -/
def Asked (c : Cluster ι) : Prop :=
  ∀ ps attempt d, c.source.state = .awaiting ps attempt d → ∃ peer io, args.peer = some peer ∧
    c.sinks.request d = some (Args.request peer ps.store io)

/-- What a run of the cluster keeps. -/
structure ClusterOk (log₀ : List WalOp) (c : Cluster ι) (past : List (Cluster ι)) : Prop where
  source : ∃ k log, SourceOk E log₀ args.apply.toNat c.source k log
  sinks : Inv E c.sinks (past.map Cluster.sinks)
  asked : Asked args c
  synced : ∀ root, .syncOk root ∈ c.source.said → ∃ peer, args.peer = some peer ∧ ∃ t ∈ c :: past,
    Recovers E (t.sinks.disks peer) (target (applyOps .new log₀) args.apply.toNat)

end

section
variable {ι : Type} [DecidableEq ι] {E : SyncdExternals} {args : Args ι} {log₀ : List WalOp}

theorem Step.request {s s' : System ι} (step : Step E s s') {d : ℕ} {r : Request ι} (known : s.request d = some r) :
    s'.request d = some r := by
  cases step with
  | boot | receive | persist | killInPersist | kill => exact known
  | connect c request fresh =>
      simp only [System.request, System.setConn] at known ⊢
      by_cases here : d = c
      · rw [here, fresh] at known
        cases known
      · rw [Function.update_of_ne here, known]
  | @accept i ps c conn listening there addressed waiting =>
      have same : ((s.put i (s.disks i) (.serving ps c)).setConn c { conn with accepted := true }).request =
          (s.put i (s.disks i) (.serving ps c)).request := System.setConn_request there rfl
      exact (congrFun same d).trans known
  | @ack i ps c conn io acking there =>
      obtain ⟨bytes, sent⟩ := send (E.ack.toVec ⟨ps.store.stateRoot E.shaHex⟩) io
      have same : ((s.put i (s.disks i) (.acked ps sent)).setConn c { conn with toSource := bytes }).request =
          (s.put i (s.disks i) (.acked ps sent)).request := System.setConn_request there rfl
      exact (congrFun same d).trans known

omit [DecidableEq ι] in
theorem SourceStep.alone {node node' : SourceNode} (step : SourceStep E args node node') :
    (∀ ps attempt d, node'.state ≠ .awaiting ps attempt d ∨ node.state = .awaiting ps attempt d) ∧
      ∀ root, .syncOk root ∈ node'.said → .syncOk root ∈ node.said := by
  cases step with
  | boot | bootFails | bootPanics | apply | applyFails | checkpoint | checkpointFails | noPeer | kill |
      killInApply | killInCheckpoint => simp
  | connectFails syncing somebody =>
      rw [SourceNode.failed]
      constructor
      · intro ps attempt d
        dsimp only
        split <;> simp
      · simp

omit [DecidableEq ι] in
theorem Inv.keep {s : System ι} {past : List (System ι)} (inv : Inv E s past) : Inv E s (s :: past) where
  sinks := inv.sinks
  acked c conn known sent := by
    obtain ⟨t, member, recovers⟩ := inv.acked c conn known sent
    exact ⟨t, List.mem_cons_of_mem _ member, recovers⟩

section Runs
variable (format : E.record.LineFormat) (trip : E.snapshot.RoundTrips) (prefixes : E.snapshot.RejectsPrefixes)
  (empty : E.snapshot.RejectsEmpty) (syncTrip : E.sync.RoundTrips) (syncPrefixes : E.sync.RejectsPrefixes)
  (inj : Set.InjOn (StateStore.stateRoot E.shaHex) (sourceStates log₀ args.apply.toNat))
include format trip prefixes empty syncTrip syncPrefixes inj

theorem ClusterOk.step {c c' : Cluster ι} {past : List (Cluster ι)} (ok : ClusterOk E args log₀ c past)
    (step : ClusterStep E args c c') : ClusterOk E args log₀ c' (c :: past) := by
  obtain ⟨k, log, source⟩ := ok.source
  have synced {last : Cluster ι} {said : List Line}
      (same : ∀ root, .syncOk root ∈ said → .syncOk root ∈ c.source.said) (root : String)
      (heard : .syncOk root ∈ said) : ∃ peer, args.peer = some peer ∧ ∃ t ∈ last :: c :: past,
        Recovers E (t.sinks.disks peer) (target (applyOps .new log₀) args.apply.toNat) := by
    obtain ⟨peer, named, t, member, recovers⟩ := ok.synced root (same root heard)
    exact ⟨peer, named, t, List.mem_cons_of_mem _ member, recovers⟩
  cases step with
  | @source node step =>
      obtain ⟨waiting, heard⟩ := step.alone
      refine ⟨source.step format trip prefixes empty inj rfl step, ok.sinks.keep, ?_, synced heard⟩
      intro ps attempt d awaiting
      exact ok.asked ps attempt d ((waiting ps attempt d).resolve_left (not_not.mpr awaiting))
  | @sinks sinks step =>
      refine ⟨⟨k, log, source⟩, step.inv format trip syncTrip syncPrefixes ok.sinks, ?_, synced fun _ heard => heard⟩
      intro ps attempt d awaiting
      obtain ⟨peer, io, named, known⟩ := ok.asked ps attempt d awaiting
      exact ⟨peer, io, named, step.request known⟩
  | @call ps attempt peer d io syncing named fresh =>
      refine ⟨⟨k, log, ⟨?_, ?_, source.roots⟩⟩, ?_, ?_, synced fun _ heard => heard⟩
      · have stands := source.stands
        rw [syncing] at stands
        exact stands
      · have place := source.place
        rw [syncing] at place
        exact place
      · exact Step.inv format trip syncTrip syncPrefixes ok.sinks (.connect d _ fresh)
      · rintro ps attempt d ⟨⟩
        refine ⟨peer, io, named, ?_⟩
        simp [System.request, System.setConn]
  | @answer ps attempt d conn reads awaiting known arrived =>
      obtain ⟨peer, io, named, asked⟩ := ok.asked ps attempt d awaiting
      have complete := source.place
      have stands := source.stands
      have running : c.source.state.process = some ps := by rw [awaiting]; rfl
      rw [awaiting] at complete
      rw [running] at stands
      obtain rfl : k = args.apply.toNat := complete
      have store := ((stands.sound format trip prefixes empty inj).2 ps rfl).2
      have requested : conn.request = Args.request peer ps.store io :=
        Option.some.inj ((System.request_of known).symm.trans asked)
      cases result : (sendAndAwaitAck E ps.store 1 tipName conn.request.sending reads).2 with
      | error e =>
          refine ⟨⟨_, log, source.failed running rfl attempt (some e)⟩, ok.sinks.keep, ?_, ?_⟩
          · intro ps attempt d
            simp only [SourceNode.answered, SourceNode.failed]
            split <;> simp
          · refine synced fun root heard => ?_
            simpa [SourceNode.answered, SourceNode.failed] using heard
      | ok =>
          have said (root : String) : .syncOk root ∈ (c.source.answered E args ps attempt (.ok ())).said ↔
              .syncOk root ∈ c.source.said ∨ root = ps.store.stateRoot E.shaHex := by
            simp [SourceNode.answered]
          refine ⟨⟨_, log, ⟨stands.killed, trivial, fun root heard => ⟨?_, rfl⟩⟩⟩, ok.sinks.keep, ?_, ?_⟩
          · obtain told | heard := heard
            · have before : .applied root ∈ c.source.said := by simpa [SourceNode.answered] using told
              exact (source.roots root (.inl before)).1
            · obtain before | rfl := (said root).mp heard
              · exact (source.roots root (.inr before)).1
              · rw [store]
          · rintro ps attempt d ⟨⟩
          · intro root heard
            obtain before | rfl := (said root).mp heard
            · exact synced (fun _ heard => heard) root before
            · have done : (sendAndAwaitAck E conn.request.store conn.request.height conn.request.tip
                  conn.request.sending reads).2 = .ok () := by
                rw [requested] at result ⊢
                exact result
              obtain ⟨bytes, left, more, ack, received, -, -⟩ := ack_of_ok done
              have sent : conn.toSource ≠ [] := by
                intro nothing
                rw [nothing, List.prefix_nil] at arrived
                exact delivered_of_receive received arrived
              obtain ⟨t, member, recovers⟩ := ok.sinks.acked d conn known sent
              rw [requested] at recovers
              have among : t ∈ (c :: past).map Cluster.sinks := member
              obtain ⟨cluster, seen, rfl⟩ := List.mem_map.mp among
              exact ⟨peer, named, cluster, List.mem_cons_of_mem _ seen, store ▸ recovers⟩

theorem ClusterRun.ok {c : Cluster ι} {past : List (Cluster ι)} (run : ClusterRun E args log₀ (c :: past)) :
    ClusterOk E args log₀ c past := by
  generalize same : c :: past = states at run
  induction run generalizing c past with
  | @start c start =>
      cases same
      refine ⟨⟨0, log₀, ⟨⟨?_, Nat.zero_le _, rfl, fun s member => .inl member⟩, ?_, ?_⟩⟩, ?_, ?_, ?_⟩
      · rw [start.down]
        exact start.disk
      · rw [start.down]
        trivial
      · intro root heard
        rw [start.silent] at heard
        simp at heard
      · exact (Run.start start.sinks).inv format trip syncTrip syncPrefixes
      · intro ps attempt d awaiting
        rw [start.down] at awaiting
        cases awaiting
      · intro root heard
        rw [start.silent] at heard
        cases heard
  | step _ step ih =>
      cases same
      exact (ih rfl).step format trip prefixes empty syncTrip syncPrefixes inj step

end Runs
end

/-! ## Undisturbed -/

section Exchange
variable {ι : Type} [DecidableEq ι] {E : SyncdExternals} {args : Args ι} (format : E.record.LineFormat)
  (trip : E.snapshot.RoundTrips) (syncTrip : E.sync.RoundTrips)
include format trip syncTrip

theorem Step.served {s : System ι} {sink : PersistentState} (request : Request ι) (d : ℕ)
    (listening : s.sinks request.sink = .listening sink) (stands : AtEnd E (s.disks request.sink) sink)
    (sending : request.sending = .ok) (small : (E.sync.toVec (request.snapshot E)).length ≤ maxFrame) :
    ∃ t, ReflTransGen (Step E) (s.setConn d ⟨request, false, []⟩) t ∧
      t.conns d = some ⟨request, true, frame (E.ack.toVec ⟨request.store.stateRoot E.shaHex⟩)⟩ ∧
      Recovers E (t.disks request.sink) request.store ∧
      ∀ i ≠ request.sink, t.disks i = s.disks i ∧ t.sinks i = s.sinks i := by
  let calling := s.setConn d ⟨request, false, []⟩
  let serving := (calling.put request.sink (calling.disks request.sink) (.serving sink d)).setConn d
    ⟨request, true, []⟩
  let persisting := serving.put request.sink (serving.disks request.sink) (.persisting sink d (request.snapshot E))
  have accepted : Step E calling serving := by
    have waiting : calling.conns d = some ⟨request, false, []⟩ := Function.update_self ..
    have ready : calling.sinks request.sink = .listening sink := listening
    exact .accept ready waiting rfl rfl
  have connected : serving.conns d = some ⟨request, true, []⟩ := Function.update_self ..
  have received : Step E serving persisting := by
    have outgoing : Connection.toSink E ⟨request, true, []⟩ = frame (E.sync.toVec (request.snapshot E)) := by
      rw [Connection.toSink, outgoing_eq, sending]
      rfl
    have taken : receiveAndVerify E [some (frame (E.sync.toVec (request.snapshot E)))] =
        .ok (request.snapshot E) := receiveAndVerify_frame syncTrip _ _ _ small
    have arrived : delivered [some (frame (E.sync.toVec (request.snapshot E)))] <+:
        Connection.toSink E ⟨request, true, []⟩ := by
      rw [outgoing]
      exact delivered_one _
    have there : serving.sinks request.sink = .serving sink d := Function.update_self ..
    have step := Step.receive _ there connected arrived
    rw [taken] at step
    exact step
  have disk : persisting.disks request.sink = s.disks request.sink := by
    simp [persisting, serving, calling, System.put, System.setConn]
  have verified : verifySnapshot E.toExternals (request.snapshot E) = .ok request.store :=
    snapshotFromStore_verifies _ _ _
  obtain ⟨process, left, result⟩ : ∃ process left, persistVerified E.toExternals sink
      (persisting.disks request.sink) (request.snapshot E) .ok .ok = (process, left, .ok ()) :=
    ⟨_, _, eq_of_result (persistVerified_ok trip _ _ verified)⟩
  obtain ⟨-, -, recovers⟩ := persist_recovers format trip (disk.symm ▸ stands) verified result
  have current : process.store = request.store := by
    obtain ⟨log, written, follows⟩ := stands
    rw [(sync_saved trip follows (disk.symm ▸ written) result).1]
    exact StateStore.ofEntries_toList request.store
  let acking := persisting.put request.sink left (.acking process d)
  have persisted : Step E persisting acking := by
    have there : persisting.sinks request.sink = .persisting sink d (request.snapshot E) :=
      Function.update_self ..
    exact .persist there result
  have there : acking.sinks request.sink = .acking process d := Function.update_self ..
  have acked := Step.ack (E := E) .ok there connected
  rw [current] at acked
  refine ⟨_, .head accepted (.head received (.head persisted (.single acked))), Function.update_self .., ?_, ?_⟩
  · simpa [acking, System.put, System.setConn] using recovers
  · intro i other
    simp [acking, persisting, serving, calling, System.put, System.setConn, other]

theorem exchange (ackTrip : E.ack.RoundTrips) {c : Cluster ι} {ps sink : PersistentState} {attempt d : ℕ} {peer : ι}
    (syncing : c.source.state = .syncing ps attempt) (named : args.peer = some peer)
    (listening : c.sinks.sinks peer = .listening sink) (stands : AtEnd E (c.sinks.disks peer) sink)
    (fresh : c.sinks.conns d = none) (fits : Fits E ps.store) :
    ∃ sinks, ReflTransGen (ClusterStep E args) c
        ⟨⟨c.source.disk, .ended (some 0), c.source.said ++ [.syncOk (ps.store.stateRoot E.shaHex)]⟩, sinks⟩ ∧
      Recovers E (sinks.disks peer) ps.store ∧
      ∀ i ≠ peer, sinks.disks i = c.sinks.disks i ∧ sinks.sinks i = c.sinks.sinks i := by
  obtain ⟨sinks, steps, answered, recovers, others⟩ := Step.served format trip syncTrip
    (Args.request peer ps.store .ok) d listening stands rfl fits.snapshot
  have called : ClusterStep E args c _ := .call d .ok syncing named fresh
  let waiting : SourceNode := ⟨c.source.disk, .awaiting ps attempt d, c.source.said⟩
  have worked : ReflTransGen (ClusterStep E args) ⟨waiting, _⟩ ⟨waiting, sinks⟩ :=
    ReflTransGen.lift (Cluster.mk waiting) (fun _ _ step => ClusterStep.sinks step) _ _ steps
  refine ⟨sinks, .head called (.tail worked ?_), recovers, others⟩
  have acked := sendAndAwaitAck_frame ackTrip ps.store 1 tipName fits.ack
  have step : ClusterStep E args ⟨waiting, sinks⟩ _ := .answer _ rfl answered (delivered_one _)
  rw [Args.request, acked] at step
  exact step

end Exchange

/-! ## Every history -/

section
variable {ι : Type} [DecidableEq ι] {E : SyncdExternals} {args : Args ι} {log₀ : List WalOp}

theorem Step.ready (format : E.record.LineFormat) {s : System ι} {i : ι}
    (whole : ∃ log, Written E.toExternals (s.disks i) log)
    (calm : loadSnapshotStore E.toExternals (s.disks i).snapshot ≠ .panicked) :
    ∃ t sink, ReflTransGen (Step E) s t ∧ t.sinks i = .listening sink ∧ AtEnd E (t.disks i) sink ∧
      t.conns = s.conns ∧ ∀ j ≠ i, t.disks j = s.disks j ∧ t.sinks j = s.sinks j := by
  obtain ⟨log, written⟩ := whole
  obtain ⟨sink, disk, opened⟩ : ∃ sink disk, PersistentState.openState E.toExternals (s.disks i) = .ok (sink, disk) :=
    ⟨_, _, openState_eq format written calm⟩
  obtain ⟨follows, written'⟩ := openState_follows format written opened
  have killed : Step E s (s.put i (s.disks i) .down) := .kill i
  have down : (s.put i (s.disks i) .down).sinks i = .down := Function.update_self ..
  rw [← System.put_disks s i (s.disks i) .down] at opened
  refine ⟨_, sink, .head killed (.single (.boot down opened)), Function.update_self .., ?_, rfl, ?_⟩
  · rw [System.put_disks]
    exact ⟨log, written', follows⟩
  · intro j other
    simp [System.put, other]

theorem Step.conns {s s' : System ι} (step : Step E s s') : ∃ c, ∀ d ≠ c, s'.conns d = s.conns d := by
  cases step with
  | boot | receive | persist | killInPersist | kill => exact ⟨0, fun d _ => rfl⟩
  | connect c | @accept i ps c | @ack i ps c => exact ⟨c, fun d other => Function.update_of_ne other ..⟩

theorem ClusterRun.fresh {c : Cluster ι} {past : List (Cluster ι)} (run : ClusterRun E args log₀ (c :: past)) :
    ∃ bound, ∀ d ≥ bound, c.sinks.conns d = none := by
  generalize same : c :: past = states at run
  induction run generalizing c past with
  | start start =>
      cases same
      exact ⟨0, fun d _ => start.sinks.unconnected d⟩
  | @step c c' past _ step ih =>
      cases same
      obtain ⟨bound, free⟩ := ih rfl
      obtain ⟨at', others⟩ : ∃ at', ∀ d ≠ at', c'.sinks.conns d = c.sinks.conns d := by
        cases step with
        | source | answer => exact ⟨0, fun d _ => rfl⟩
        | sinks step => exact step.conns
        | call d => exact ⟨d, fun d' other => Function.update_of_ne other ..⟩
      refine ⟨max bound (at' + 1), fun d beyond => ?_⟩
      rw [others d (by omega)]
      exact free d (by omega)

omit [DecidableEq ι] in
theorem persistVerified_calm (trip : E.snapshot.RoundTrips) (prefixes : E.snapshot.RejectsPrefixes)
    (empty : E.snapshot.RejectsEmpty) (ps : PersistentState) {disk : Disk} (snap : SyncSnapshot) (io : WriteIo)
    (calm : loadSnapshotStore E.toExternals disk.snapshot ≠ .panicked) : loadSnapshotStore E.toExternals
      (persistVerified E.toExternals ps disk snap .ok io).2.1.snapshot ≠ .panicked := by
  cases verified : verifySnapshot E.toExternals snap with
  | error e => simpa [persistVerified, verified] using calm
  | ok store =>
      rw [(persistVerified_eq ps disk verified .ok io).2, checkpoint_disk]
      obtain kept | ⟨after, -⟩ := save_leaves trip prefixes empty store snap.height snap.tipBlockHash disk.snapshot io
      · rw [kept]
        exact calm
      · exact after

/-- Whatever a sink leaves in its snapshot file, it does not end the next start. -/
theorem Step.calm (trip : E.snapshot.RoundTrips) (prefixes : E.snapshot.RejectsPrefixes)
    (empty : E.snapshot.RejectsEmpty) {s s' : System ι} (step : Step E s s') {i : ι}
    (calm : loadSnapshotStore E.toExternals (s.disks i).snapshot ≠ .panicked) :
    loadSnapshotStore E.toExternals (s'.disks i).snapshot ≠ .panicked := by
  have update {j : ι} {disk : Disk} (here : j = i → loadSnapshotStore E.toExternals disk.snapshot ≠ .panicked) :
      loadSnapshotStore E.toExternals (Function.update s.disks j disk i).snapshot ≠ .panicked := by
    by_cases same : i = j
    · rw [same, Function.update_self]
      exact here same.symm
    · rw [Function.update_of_ne same]
      exact calm
  cases step with
  | connect => exact calm
  | @boot j ps disk down opened =>
      refine update fun here => ?_
      rw [PersistentState.openState_snapshot _ opened, here]
      exact calm
  | accept | receive | ack | kill => exact update fun here => here ▸ calm
  | @persist j ps c snap ps' disk result persisting done =>
      refine update fun here => ?_
      have after := persistVerified_calm trip prefixes empty ps snap .ok calm
      rw [← here, done] at after
      exact after
  | @killInPersist j ps c snap io persisting =>
      refine update fun here => ?_
      rw [here]
      exact persistVerified_calm trip prefixes empty ps snap io calm

theorem ClusterRun.calm (trip : E.snapshot.RoundTrips) (prefixes : E.snapshot.RejectsPrefixes)
    (empty : E.snapshot.RejectsEmpty) {c : Cluster ι} {past : List (Cluster ι)}
    (run : ClusterRun E args log₀ (c :: past)) {i : ι}
    (calm : ∀ first ∈ (c :: past).getLast?,
      loadSnapshotStore E.toExternals (first.sinks.disks i).snapshot ≠ .panicked) :
    loadSnapshotStore E.toExternals (c.sinks.disks i).snapshot ≠ .panicked := by
  generalize same : c :: past = states at run calm
  induction run generalizing c past with
  | start start =>
      cases same
      exact calm _ rfl
  | @step c c' past _ step ih =>
      cases same
      have before := ih rfl (by simpa using calm)
      cases step with
      | source | call | answer => exact before
      | sinks step => exact step.calm trip prefixes empty before

section Resync
variable (format : E.record.LineFormat) (trip : E.snapshot.RoundTrips) (prefixes : E.snapshot.RejectsPrefixes)
  (empty : E.snapshot.RejectsEmpty) (syncTrip : E.sync.RoundTrips) (ackTrip : E.ack.RoundTrips)
  (inj : Set.InjOn (StateStore.stateRoot E.shaHex) (sourceStates log₀ args.apply.toNat))
include format trip prefixes empty syncTrip ackTrip inj

/-- Wherever the two are, a start of each and an exchange bring them to the end. -/
theorem ClusterOk.resync {c : Cluster ι} {past : List (Cluster ι)} (ok : ClusterOk E args log₀ c past) {peer : ι}
    (named : args.peer = some peer) (calm : loadSnapshotStore E.toExternals (c.sinks.disks peer).snapshot ≠ .panicked)
    {d : ℕ} (fresh : c.sinks.conns d = none) (fits : Fits E (target (applyOps .new log₀) args.apply.toNat)) :
    ∃ c', ReflTransGen (ClusterStep E args) c c' ∧
      .syncOk ((target (applyOps .new log₀) args.apply.toNat).stateRoot E.shaHex) ∈ c'.source.said ∧
      c'.source.state = .ended (some 0) ∧
      Recovers E (c'.sinks.disks peer) (target (applyOps .new log₀) args.apply.toNat) ∧
      ∀ i ≠ peer, c'.sinks.disks i = c.sinks.disks i ∧ c'.sinks.sinks i = c.sinks.sinks i := by
  obtain ⟨k, log, source⟩ := ok.source
  obtain ⟨disk, ps, said, readied, current⟩ := source.ready format trip prefixes empty inj
  obtain ⟨sinks, sink, started, listening, stands, conns, untouched⟩ :=
    Step.ready format (ok.sinks.sinks peer).whole calm
  rw [← current] at fits ⊢
  obtain ⟨sinks', exchanged, recovers, others⟩ := exchange (c := ⟨⟨disk, .syncing ps 0, said⟩, sinks⟩) (d := d)
    format trip syncTrip ackTrip rfl named listening stands (by rw [conns, fresh]) fits
  let node : SourceNode := ⟨disk, .syncing ps 0, said⟩
  have one : ReflTransGen (ClusterStep E args) c ⟨node, c.sinks⟩ :=
    ReflTransGen.lift (fun node => Cluster.mk node c.sinks) (fun _ _ step => ClusterStep.source step) _ _ readied
  have two : ReflTransGen (ClusterStep E args) ⟨node, c.sinks⟩ ⟨node, sinks⟩ :=
    ReflTransGen.lift (Cluster.mk node) (fun _ _ step => ClusterStep.sinks step) _ _ started
  refine ⟨_, one.trans (two.trans exchanged), by simp, rfl, recovers, fun i other => ?_⟩
  rw [(others i other).1, (others i other).2]
  exact untouched i other

end Resync

theorem ClusterRun.extend {c c' : Cluster ι} {past : List (Cluster ι)} (run : ClusterRun E args log₀ (c :: past))
    (steps : ReflTransGen (ClusterStep E args) c c') : ∃ past', ClusterRun E args log₀ (c' :: past') := by
  induction steps with
  | refl => exact ⟨past, run⟩
  | tail _ step ih =>
      obtain ⟨past', there⟩ := ih
      exact ⟨_, there.step step⟩

end

section First

def firstArgs : Args Unit := ⟨1, 0, some ()⟩

def firstCluster : Cluster Unit := ⟨⟨⟨none, none⟩, .ended none, []⟩, firstIdle⟩

def firstTarget : StateStore := StateStore.new.applyAll (deterministicTxs 1)

theorem firstCluster_run : ClusterRun jsonSync firstArgs [] [firstCluster] :=
  .start ⟨.fresh, rfl, rfl, ⟨fun _ => rfl, fun _ => rfl, fun _ => ⟨[], rfl⟩⟩⟩

theorem firstSource_inj :
    Set.InjOn (StateStore.stateRoot jsonSync.shaHex) (sourceStates [] firstArgs.apply.toNat) := by
  have states : sourceStates [] firstArgs.apply.toNat ⊆ {StateStore.new, firstTarget} := by
    rintro s (logged | ⟨k, within, rfl⟩)
    · have nothing : s = StateStore.new := by simpa [logStates, MarkerLog.states_nil] using logged
      exact .inl nothing
    · obtain rfl | rfl := Nat.le_one_iff_eq_zero_or_eq_one.mp within
      · exact .inl rfl
      · exact .inr rfl
  exact (Set.injOn_pair.mpr fun same => absurd same (by decide +kernel)).mono states

theorem firstTarget_fits : Fits jsonSync firstTarget := ⟨by decide +kernel, by decide +kernel⟩

end First

section
variable {ι : Type} [DecidableEq ι] {E : SyncdExternals} {args : Args ι} {log₀ : List WalOp}

section Converges
variable (format : E.record.LineFormat) (trip : E.snapshot.RoundTrips) (prefixes : E.snapshot.RejectsPrefixes)
  (empty : E.snapshot.RejectsEmpty) (syncTrip : E.sync.RoundTrips) (syncPrefixes : E.sync.RejectsPrefixes)
  (inj : Set.InjOn (StateStore.stateRoot E.shaHex) (sourceStates log₀ args.apply.toNat))
include format trip prefixes empty syncTrip syncPrefixes inj

/-- However often the source and the sinks are killed and started again, and whatever else the sinks are asked:
the source never says another root than that of all its transactions on top of what its log held at first; once
it has said it, a restart finds that state on its disk; and once it has said that it has synced, the disk of its
peer has held that state in such a way that a restart finds it. -/
theorem source_converges {c : Cluster ι} {past : List (Cluster ι)} (run : ClusterRun E args log₀ (c :: past))
    (root : String) :
    (.applied root ∈ c.source.said ∨ .syncOk root ∈ c.source.said →
      root = ((applyOps .new log₀).applyAll (deterministicTxs args.apply)).stateRoot E.shaHex ∧
      Recovers E c.source.disk ((applyOps .new log₀).applyAll (deterministicTxs args.apply))) ∧
    (.syncOk root ∈ c.source.said → ∃ peer, args.peer = some peer ∧ ∃ t ∈ c :: past,
      Recovers E (t.sinks.disks peer) ((applyOps .new log₀).applyAll (deterministicTxs args.apply))) := by
  have ok := run.ok format trip prefixes empty syncTrip syncPrefixes inj
  rw [applyAll_deterministicTxs]
  refine ⟨fun heard => ?_, ok.synced root⟩
  obtain ⟨k, log, source⟩ := ok.source
  obtain ⟨known, rfl⟩ := source.roots root heard
  refine ⟨known, ?_⟩
  obtain ⟨sound, -⟩ := source.stands.sound format trip prefixes empty inj
  have opened := openState_eq format sound.written sound.calm
  refine ⟨_, _, opened, ?_⟩
  rw [← source.stands.store]
  exact (sound.openState format (inj.mono source.stands.states) opened).2.2

end Converges

/-- The source is killed, started again, and syncs. -/
theorem source_converges_first : ∃ c past, ClusterRun jsonSync firstArgs [] (c :: past) ∧
    .syncOk (firstTarget.stateRoot jsonSync.shaHex) ∈ c.source.said ∧ Recovers jsonSync c.source.disk firstTarget ∧
    ∃ t ∈ c :: past, Recovers jsonSync (t.sinks.disks ()) firstTarget := by
  have ok := firstCluster_run.ok jsonWal_format jsonNode_roundTrips jsonNode_rejectsPrefixes jsonNode_rejectsEmpty
    jsonSync_sync_roundTrips jsonSync_sync_rejectsPrefixes firstSource_inj
  obtain ⟨c, steps, said, -⟩ := ok.resync (d := 0) jsonWal_format jsonNode_roundTrips jsonNode_rejectsPrefixes
    jsonNode_rejectsEmpty jsonSync_sync_roundTrips jsonSync_ack_roundTrips firstSource_inj rfl
    (by simp [firstCluster, firstIdle, loadSnapshotStore]) rfl firstTarget_fits
  obtain ⟨past, run⟩ := firstCluster_run.extend steps
  obtain ⟨settled, synced⟩ := source_converges (E := jsonSync) jsonWal_format jsonNode_roundTrips
    jsonNode_rejectsPrefixes jsonNode_rejectsEmpty jsonSync_sync_roundTrips jsonSync_sync_rejectsPrefixes
    firstSource_inj run _
  obtain ⟨peer, -, held⟩ := synced said
  exact ⟨c, past, run, said, (settled (.inr said)).2, held⟩

end

end KaiOs.Syncd
