import KaiOs.Node.Audit

/-! What the audit logs prove to a reader: whether a verified log binds its events, and whether
the file that several processes append to is one chain. -/
namespace KaiOs.Node
open AuditLogger Format SealedChain

def auditEventFormat : Format AuditEvent :=
  (between "\x7b\"seq\":" ((u64Format ',' comma_no_digit).seq (between "\"kind\":" (string.seq
    (between ",\"detail\":" (string.seq (between ",\"prev_hash\":" (string.seq
      (between ",\"hash\":" string "")) "")) "")) "")) "\x7d").map
    (fun p => ⟨p.1, p.2.1, p.2.2.1, p.2.2.2.1, p.2.2.2.2⟩)
    (fun e => (e.seq, e.kind, e.detail, e.prevHash, e.hash)) (fun _ => rfl)

/-- The packages the daemon is built with: SHA-256 and JSON. -/
def jsonAudit : AuditExternals where
  shaHex := Sha256.hex
  event := auditEventFormat.codec

theorem auditEventFormat_avoids : auditEventFormat.Avoids '\n' := by
  refine (Avoids.between (Avoids.seq (avoids_decimal ?_ ?_).map (Avoids.between (avoids_string.seq
    (Avoids.between (avoids_string.seq (Avoids.between (avoids_string.seq
      (avoids_string.between ?_ ?_)) ?_ ?_)) ?_ ?_)) ?_ ?_)) ?_ ?_).map <;> decide

theorem jsonAudit_format : jsonAudit.event.LineFormat where
  roundTrips := codec_roundTrips
  oneLine e member := auditEventFormat_avoids e (by simpa [jsonAudit, codec] using member)
  braced e := between_braced (l := "\"seq\":") (r := "") rfl rfl (e.seq, e.kind, e.detail, e.prevHash, e.hash)

example : jsonAudit.event.text ⟨1, "daemon", "boot", "0", "1"⟩ =
    "\x7b\"seq\":1,\"kind\":\"daemon\",\"detail\":\"boot\",\"prev_hash\":\"0\",\"hash\":\"1\"\x7d" := by
  decide +kernel

/-! ## The chain binds its events -/

section
variable {Path : Type} [DecidableEq Path] {X : AuditExternals}

/-- A recorded log, of the gateway as of the daemon, is the only verified one of its length with its
last hash exactly when no recorded text contains a separator. -/
theorem recorded_unique_iff (hex : ∀ t, Fields.Free '|' (X.shaHex t))
    (calls : List (String × String × String)) (sink : Option Path) (files : Files Path)
    (calls' : List RecordCall)
    (unmatched : Signature.Unmatched X.shaHex {t | ∃ e ∈ (Ai.AuditPipeline.recordAll X.shaHex .new calls).events,
      Ai.AuditEvent.layout.text e = t})
    (unmatched' : Signature.Unmatched X.shaHex {t | ∃ e ∈ (recordAll X ⟨[], sink⟩ files calls').1.events,
      AuditEvent.layout.text e = t}) :
    ((∀ b : Ai.AuditPipeline, b.verify X.shaHex = true →
        b.events.length = (Ai.AuditPipeline.recordAll X.shaHex .new calls).events.length →
        b.events.getLast?.map (·.hash) =
          (Ai.AuditPipeline.recordAll X.shaHex .new calls).events.getLast?.map (·.hash) →
        b.events = (Ai.AuditPipeline.recordAll X.shaHex .new calls).events) ↔
      ∀ call ∈ calls, Fields.Free '|' call.1 ∧ Fields.Free '|' call.2.1 ∧ Fields.Free '|' call.2.2) ∧
    ((∀ b : AuditLogger Path, b.verifyChain X = true →
        b.events.length = (recordAll X ⟨[], sink⟩ files calls').1.events.length →
        b.events.getLast?.map (·.hash) =
          (recordAll X ⟨[], sink⟩ files calls').1.events.getLast?.map (·.hash) →
        b.events = (recordAll X ⟨[], sink⟩ files calls').1.events) ↔
      ∀ call ∈ calls', records ⟨[], sink⟩ call.io →
        Fields.Free '|' call.kind ∧ Fields.Free '|' call.detail) :=
  ⟨Ai.AuditPipeline.recordAll_unique_iff X.shaHex calls hex unmatched,
    recordAll_unique_iff sink files calls' hex unmatched'⟩

end

/-- SHA-256 on the given texts, and a value none of them has elsewhere. -/
def pinnedAudit (texts : List String) : AuditExternals where
  shaHex t := if t ∈ texts then Sha256.hex t else ""
  event := auditEventFormat.codec

theorem pinnedAudit_free (texts : List String) (t : String) : Fields.Free '|' ((pinnedAudit texts).shaHex t) := by
  simp only [pinnedAudit]
  split
  · exact Sha256.free_hex (by decide) t
  · exact List.not_mem_nil

theorem pinnedAudit_of_mem {texts : List String} {t : String} (member : t ∈ texts) :
    (pinnedAudit texts).shaHex t = Sha256.hex t := if_pos member

theorem pinnedAudit_unmatched {α : Type} {es : List α} {text : α → String} {texts : List String}
    (inside : ∀ e ∈ es, text e ∈ texts)
    (distinct : ∀ t ∈ texts, Sha256.hex t ≠ "" ∧ ∀ u ∈ texts, Sha256.hex u = Sha256.hex t → u = t) :
    Signature.Unmatched (pinnedAudit texts).shaHex {t | ∃ e ∈ es, text e = t} := by
  rintro _ ⟨e, member, rfl⟩ u same
  rw [pinnedAudit_of_mem (inside e member), pinnedAudit] at same
  dsimp only at same
  split at same
  · exact (distinct _ (inside e member)).2 u ‹_› same
  · exact absurd same.symm (distinct _ (inside e member)).1

/-- The events a gateway and a daemon have recorded first. -/
def firstTexts : List String :=
  ["1|gateway|submit|p1|" ++ genesisHash, "1|daemon|boot|" ++ genesisHash]

theorem firstTexts_distinct :
    ∀ t ∈ firstTexts, Sha256.hex t ≠ "" ∧ ∀ u ∈ firstTexts, Sha256.hex u = Sha256.hex t → u = t := by
  have gateway : Sha256.hex ("1|gateway|submit|p1|" ++ genesisHash) =
      "aa0003f72688d484090ca6673af7d67050388031ac102751c7e1e36d512bde5f" := by
    decide +kernel
  have daemon : Sha256.hex ("1|daemon|boot|" ++ genesisHash) =
      "d18c71ad6d32155fe1ebbd35f80f330dfd392b4c999aa2356617cb2d5bddb628" := by
    decide +kernel
  simp [firstTexts, gateway, daemon]

theorem recorded_unique_first :
    (∀ b : Ai.AuditPipeline, b.verify (pinnedAudit firstTexts).shaHex = true →
      b.events.length = 1 →
      b.events.getLast?.map (·.hash) = some (Sha256.hex ("1|gateway|submit|p1|" ++ genesisHash)) →
      b.events = (Ai.AuditPipeline.recordAll (pinnedAudit firstTexts).shaHex .new
        [("gateway", "submit", "p1")]).events) ∧
    (∀ b : AuditLogger String, b.verifyChain (pinnedAudit firstTexts) = true →
      b.events.length = 1 →
      b.events.getLast?.map (·.hash) = some (Sha256.hex ("1|daemon|boot|" ++ genesisHash)) →
      b.events = (recordAll (pinnedAudit firstTexts) ⟨[], some "audit.log"⟩ (fun _ => none)
        [⟨.ok, "daemon", "boot"⟩]).1.events) := by
  have gateway : (pinnedAudit firstTexts).shaHex ("1|gateway|submit|p1|" ++ genesisHash) =
      Sha256.hex ("1|gateway|submit|p1|" ++ genesisHash) :=
    pinnedAudit_of_mem (by simp [firstTexts])
  have daemon : (pinnedAudit firstTexts).shaHex ("1|daemon|boot|" ++ genesisHash) =
      Sha256.hex ("1|daemon|boot|" ++ genesisHash) :=
    pinnedAudit_of_mem (by simp [firstTexts])
  have recorded : (Ai.AuditPipeline.recordAll (pinnedAudit firstTexts).shaHex .new
      [("gateway", "submit", "p1")]).events = [⟨1, "gateway", "submit", "p1", genesisHash,
        Sha256.hex ("1|gateway|submit|p1|" ++ genesisHash)⟩] := by
    rw [← gateway]
    rfl
  have recorded' : (recordAll (pinnedAudit firstTexts) ⟨[], some "audit.log"⟩ (fun _ => none)
      [⟨.ok, "daemon", "boot"⟩]).1.events = [⟨1, "daemon", "boot", genesisHash,
        Sha256.hex ("1|daemon|boot|" ++ genesisHash)⟩] := by
    rw [← daemon]
    rfl
  have unique := recorded_unique_iff (pinnedAudit_free firstTexts) [("gateway", "submit", "p1")]
    (some "audit.log") (fun _ => none) [⟨.ok, "daemon", "boot"⟩]
    (pinnedAudit_unmatched (by rw [recorded]; decide +kernel) firstTexts_distinct)
    (pinnedAudit_unmatched (by rw [recorded']; decide +kernel) firstTexts_distinct)
  rw [recorded, recorded'] at unique ⊢
  exact ⟨unique.1.mpr (by decide), unique.2.mpr (by decide)⟩

/-- Two ways to cut one text, whatever the hash function is. -/
theorem recut_gateway (shaHex : String → String) :
    let recorded := Ai.AuditPipeline.recordAll shaHex .new [("a|b", "c", "d")]
    let other := Ai.AuditPipeline.recordAll shaHex .new [("a", "b|c", "d")]
    other.verify shaHex = true ∧ other.events.length = recorded.events.length ∧
      other.events.getLast?.map (·.hash) = recorded.events.getLast?.map (·.hash) ∧
      other.events ≠ recorded.events := by
  refine ⟨Ai.AuditPipeline.verify_recordAll shaHex rfl _, rfl, rfl, fun same => ?_⟩
  have actors : ["a"] = ["a|b"] := congrArg (List.map Ai.AuditEvent.actor) same
  exact absurd actors (by decide)

theorem recut_daemon (X : AuditExternals) :
    let recorded := (recordAll X (inMemory : AuditLogger String) (fun _ => none) [⟨.ok, "a|b", "c"⟩]).1
    let other := (recordAll X (inMemory : AuditLogger String) (fun _ => none) [⟨.ok, "a", "b|c"⟩]).1
    other.verifyChain X = true ∧ other.events.length = recorded.events.length ∧
      other.events.getLast?.map (·.hash) = recorded.events.getLast?.map (·.hash) ∧
      other.events ≠ recorded.events := by
  refine ⟨verifyChain_recordAll rfl _ _, rfl, rfl, fun same => ?_⟩
  have kinds : ["a"] = ["a|b"] := congrArg (List.map AuditEvent.kind) same
  exact absurd kinds (by decide)

/-- The same text cut at another bar: two events that no hash tells apart. -/
theorem recorded_recut :
    (let recorded := Ai.AuditPipeline.recordAll Sha256.hex .new [("a|b", "c", "d")]
      let other := Ai.AuditPipeline.recordAll Sha256.hex .new [("a", "b|c", "d")]
      other.verify Sha256.hex = true ∧ other.events.length = recorded.events.length ∧
        other.events.getLast?.map (·.hash) = recorded.events.getLast?.map (·.hash) ∧
        other.events ≠ recorded.events) ∧
    (let recorded := (recordAll jsonAudit (inMemory : AuditLogger String) (fun _ => none) [⟨.ok, "a|b", "c"⟩]).1
      let other := (recordAll jsonAudit (inMemory : AuditLogger String) (fun _ => none) [⟨.ok, "a", "b|c"⟩]).1
      other.verifyChain jsonAudit = true ∧ other.events.length = recorded.events.length ∧
        other.events.getLast?.map (·.hash) = recorded.events.getLast?.map (·.hash) ∧
        other.events ≠ recorded.events) :=
  ⟨recut_gateway Sha256.hex, recut_daemon jsonAudit⟩

/-! ## The file over several processes -/

section
variable {Path : Type} [DecidableEq Path] (X : AuditExternals)

/-- A process that opens the log and records its calls. -/
def lifetime (path : Path) (files : Files Path) (calls : List (String × String)) : Files Path :=
  match toFile (.ok ()) path with
  | .ok a => (a.recordAll X files (calls.map fun (kind, detail) => ⟨.ok, kind, detail⟩)).2
  | .error _ => files

def lifetimes (path : Path) (files : Files Path) (processes : List (List (String × String))) : Files Path :=
  processes.foldl (lifetime X path) files

/-- The events of the file pass the rules of `verify_chain`. -/
def persistedValid (files : Files Path) (path : Path) : Bool :=
  match X.event.readLines ((files path).getD []) with
  | some events => verifyChain X (⟨events, some path⟩ : AuditLogger Path)
  | none => false

variable {X}

theorem recordAll_appends {a : AuditLogger Path} {path : Path} (opened : a.sink = some path)
    (files : Files Path) (calls : List (String × String)) :
    ∃ more, more.length = calls.length ∧
      (a.recordAll X files (calls.map fun (kind, detail) => ⟨.ok, kind, detail⟩)).1.events = a.events ++ more ∧
      ((a.recordAll X files (calls.map fun (kind, detail) => ⟨.ok, kind, detail⟩)).2 path).getD [] =
        (files path).getD [] ++ more.flatMap X.event.line := by
  induction calls generalizing a files with
  | nil => exact ⟨[], rfl, (List.append_nil _).symm, (List.append_nil _).symm⟩
  | cons call calls ih =>
      obtain ⟨kind, detail⟩ := call
      obtain ⟨events, sink⟩ := a
      obtain rfl : sink = some path := opened
      obtain ⟨more, lengths, kept, written⟩ := ih
        (a := ⟨events ++ [nextEvent X ⟨events, some path⟩ kind detail], _⟩)
        rfl (files.append path (X.event.line (nextEvent X (⟨events, some path⟩ : AuditLogger Path) kind detail)))
      refine ⟨nextEvent X ⟨events, some path⟩ kind detail :: more, congrArg (· + 1) lengths, ?_, ?_⟩
      · rw [List.append_cons]
        exact kept
      · rw [Files.append, Function.update_self, Option.getD_some, List.append_assoc] at written
        exact written

theorem lifetime_appends (path : Path) (files : Files Path) (calls : List (String × String)) :
    ∃ more, more.length = calls.length ∧ AuditEvent.layout.Sealed X.shaHex 0 genesisHash more ∧
      (lifetime X path files calls path).getD [] = (files path).getD [] ++ more.flatMap X.event.line := by
  obtain ⟨more, lengths, kept, written⟩ := recordAll_appends (X := X) (a := ⟨[], some path⟩) rfl files calls
  refine ⟨more, lengths, ?_, written⟩
  have verified := verifyChain_recordAll (X := X) (a := ⟨[], some path⟩) rfl files
    (calls.map fun (kind, detail) => ⟨.ok, kind, detail⟩)
  rwa [verifyChain_iff, kept, List.nil_append] at verified

theorem lifetimes_append (path : Path) (files : Files Path) (processes : List (List (String × String))) :
    ∃ chains : List (List AuditEvent), chains.map List.length = processes.map List.length ∧
      (∀ events ∈ chains, AuditEvent.layout.Sealed X.shaHex 0 genesisHash events) ∧
      (lifetimes X path files processes path).getD [] =
        (files path).getD [] ++ chains.flatten.flatMap X.event.line := by
  induction processes generalizing files with
  | nil => exact ⟨[], rfl, nofun, (List.append_nil _).symm⟩
  | cons calls processes ih =>
      obtain ⟨more, lengths, sealed, written⟩ := lifetime_appends (X := X) path files calls
      obtain ⟨chains, others, each, file⟩ := ih (lifetime X path files calls)
      refine ⟨more :: chains, ?_, List.forall_mem_cons.mpr ⟨sealed, each⟩, ?_⟩
      · rw [List.map_cons, List.map_cons, lengths, others]
      · rw [List.flatten_cons, List.flatMap_append, ← List.append_assoc, ← written]
        exact file

/-- What a reader finds in the file are the chains of the processes, one behind the other. -/
theorem lifetimes_chains (format : X.event.LineFormat) (path : Path) {processes : List (List (String × String))}
    (fits : ∀ calls ∈ processes, calls.length < 2 ^ 64) :
    ∃ chains : List (List AuditEvent), chains.countP (! ·.isEmpty) = processes.countP (! ·.isEmpty) ∧
      (∀ events ∈ chains, events.length < 2 ^ 64) ∧
      (∀ events ∈ chains, AuditEvent.layout.Sealed X.shaHex 0 genesisHash events) ∧
      persistedValid X (lifetimes X path (fun _ => none) processes) path =
        verifyChain X (⟨chains.flatten, some path⟩ : AuditLogger Path) := by
  obtain ⟨chains, lengths, each, file⟩ := lifetimes_append (X := X) path (fun _ => none) processes
  have nonempty {α : Type} (xss : List (List α)) :
      xss.countP (! ·.isEmpty) = (xss.map List.length).countP (· ≠ 0) := by
    rw [List.countP_map]
    refine List.countP_congr fun xs _ => ?_
    cases xs <;> simp
  refine ⟨chains, by rw [nonempty chains, lengths, ← nonempty processes], ?_, each, ?_⟩
  · intro events member
    have inside := List.mem_map_of_mem (f := List.length) member
    rw [lengths] at inside
    obtain ⟨calls, found, same⟩ := List.mem_map.mp inside
    exact same ▸ fits calls found
  · rw [persistedValid, file, Option.getD_none, List.nil_append, format.readLines_flatMap]

/-- The file of several processes is one chain exactly when at most one of them has recorded
anything. -/
theorem persisted_valid_iff (format : X.event.LineFormat) (path : Path)
    (processes : List (List (String × String))) (fits : ∀ calls ∈ processes, calls.length < 2 ^ 64) :
    persistedValid X (lifetimes X path (fun _ => none) processes) path = true ↔
      processes.countP (! ·.isEmpty) ≤ 1 := by
  obtain ⟨chains, several, bounds, each, read⟩ := lifetimes_chains format path fits
  rw [read, verifyChain_iff, sealed_flatten_iff each bounds, several]

end

theorem persisted_valid_once :
    persistedValid jsonAudit (lifetimes jsonAudit "audit.log" (fun _ => none)
      [[], [("daemon", "boot"), ("lifecycle", "Init -> Boot")], []]) "audit.log" = true :=
  (persisted_valid_iff jsonAudit_format "audit.log" _ (by decide)).mpr (by decide)

/-- A restart begins a second chain in the same file. -/
theorem restart_breaks_log :
    persistedValid jsonAudit (lifetimes jsonAudit "audit.log" (fun _ => none)
      [[("daemon", "boot")], [("daemon", "boot")]]) "audit.log" = false := by
  have fits : ∀ calls ∈ [[("daemon", "boot")], [("daemon", "boot")]], calls.length < 2 ^ 64 := by decide
  obtain ⟨chains, several, bounds, each, read⟩ := lifetimes_chains jsonAudit_format "audit.log" fits
  rw [read]
  refine Bool.eq_false_iff.mpr fun valid => ?_
  have once := (sealed_flatten_iff each bounds).mp ((verifyChain_iff _).mp valid)
  rw [several] at once
  exact absurd once (by decide)

end KaiOs.Node
