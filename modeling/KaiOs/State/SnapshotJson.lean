import KaiOs.State.Persistence
import KaiOs.State.WalJson

/-! The pretty JSON of a snapshot file. -/
namespace KaiOs
open Format

def entryFormat : Format (String × String) := string.seq (between ": " string "")

def entriesFormat : Format (BTreeMap String String) :=
  (list entryFormat "\x7d" "\n    " ",\n    " "\n  \x7d" (by decide) (by decide)).map
    (fun es => (StateStore.ofEntries es).entries) (fun m => m.toList)
    (fun m => congrArg StateStore.entries (StateStore.ofEntries_toList ⟨m⟩))

def snapshotFormat : Format PersistedSnapshot :=
  (between "\x7b\n  \"height\": " ((u64Format ',' comma_no_digit).seq
    (between "\n  \"tip_block_hash\": " (string.seq
      (between ",\n  \"state_root\": " (string.seq
        (between ",\n  \"entries\": \x7b" entriesFormat "")) "")) "")) "\n\x7d").map
    (fun p => ⟨p.1, p.2.1, p.2.2.1, p.2.2.2⟩)
    (fun s => (s.height, s.tipBlockHash, s.stateRoot, s.entries)) (fun _ => rfl)

/-- The packages a node is built with. -/
def jsonNode : Externals where
  toWalExternals := jsonWal
  snapshot := snapshotFormat.codec

theorem jsonNode_roundTrips : jsonNode.snapshot.RoundTrips := codec_roundTrips

theorem jsonNode_rejectsPrefixes : jsonNode.snapshot.RejectsPrefixes := codec_rejectsPrefixes

theorem jsonNode_braced : jsonNode.snapshot.Braced := fun s =>
  between_braced (l := "\n  \"height\": ") (r := "\n") rfl rfl
    (s.height, s.tipBlockHash, s.stateRoot, s.entries)

theorem jsonNode_rejectsEmpty : jsonNode.snapshot.RejectsEmpty := rfl

end KaiOs
