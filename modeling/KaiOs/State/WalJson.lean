import KaiOs.Lib.Format
import KaiOs.Lib.Sha256
import KaiOs.State.WalReplay

/-! The compact JSON that the derived `Serialize` gives the log's types, as a codec that
is fit for the log. -/
namespace KaiOs
open Format WriteAheadLog

def u64Format (stop : Char) (other : stop.isDigit = false) : Format UInt64 :=
  (decimal stop other).map UInt64.ofNat UInt64.toNat fun _ => UInt64.ofNat_toNat

theorem comma_no_digit : (',').isDigit = false := rfl

def txFormat : Format Tx :=
  ((between "\x7b\"Set\":\x7b\"key\":" (string.seq (between ",\"value\":" string "")) "\x7d\x7d").either
    (between "\x7b\"Remove\":\x7b\"key\":" string "\x7d\x7d")
    (between_apart (by decide))).map
    (fun | .inl p => .set p.1 p.2 | .inr key => .remove key)
    (fun | .set key value => .inl (key, value) | .remove key => .inr key)
    (fun tx => by cases tx <;> rfl)

def walOpFormat : Format WalOp :=
  ((between "\x7b\"Apply\":" txFormat "\x7d").either
    (between "\x7b\"Checkpoint\":\x7b\"height\":"
      ((u64Format ',' comma_no_digit).seq (between "\"tip_block_hash\":"
        (string.seq (between ",\"state_root\":" string "")) "")) "\x7d\x7d")
    (between_apart (by decide))).map
    (fun | .inl tx => .apply tx | .inr p => .checkpoint p.1 p.2.1 p.2.2)
    (fun | .apply tx => .inl tx | .checkpoint height tip root => .inr (height, tip, root))
    (fun op => by cases op <;> rfl)

def walRecordFormat : Format WalRecord :=
  (between "\x7b\"seq\":" ((u64Format ',' comma_no_digit).seq (between "\"prev_hash\":"
    (string.seq (between ",\"op\":" walOpFormat "")) "")) "\x7d").map
    (fun p => ⟨p.1, p.2.1, p.2.2⟩) (fun r => (r.seq, r.prevHash, r.op)) (fun _ => rfl)

/-- The packages the log is built with: SHA-256 and JSON. -/
def jsonWal : WalExternals where
  shaHex := Sha256.hex
  opText := walOpFormat.codec.text
  record := walRecordFormat.codec

theorem walRecordFormat_avoids : walRecordFormat.Avoids '\n' := by
  have tx : txFormat.Avoids '\n' := by
    refine ((Avoids.between (avoids_string.seq (avoids_string.between ?_ ?_)) ?_ ?_).either
      (avoids_string.between ?_ ?_)).map <;> decide
  have op : walOpFormat.Avoids '\n' := by
    refine ((tx.between ?_ ?_).either (Avoids.between (Avoids.seq (avoids_decimal ?_ ?_).map
      (Avoids.between (avoids_string.seq (avoids_string.between ?_ ?_)) ?_ ?_)) ?_ ?_)).map <;> decide
  refine (Avoids.between (Avoids.seq (avoids_decimal ?_ ?_).map
    (Avoids.between (avoids_string.seq (op.between ?_ ?_)) ?_ ?_)) ?_ ?_).map <;> decide

theorem jsonWal_format : jsonWal.record.LineFormat where
  roundTrips := codec_roundTrips
  oneLine r member := walRecordFormat_avoids r (by simpa [jsonWal, codec] using member)
  braced r := between_braced (l := "\"seq\":") (r := "") rfl rfl (r.seq, r.prevHash, r.op)

theorem jsonWal_rejectsPrefixes : jsonWal.record.RejectsPrefixes := codec_rejectsPrefixes

theorem jsonWal_rejectsTrailing : jsonWal.record.RejectsTrailing := codec_rejectsTrailing

/-- The log of a list of ops on a fresh file. -/
def jsonLog (ops : List WalOp) : Utf8.Bytes := logBytes jsonWal (genesis.chain jsonWal ops)

theorem replay_jsonLog (ops : List WalOp) :
    replay jsonWal (some (jsonLog ops)) =
      .ok (ops, (genesis.advance jsonWal ops).seq, (genesis.advance jsonWal ops).prevHash) :=
  replay_iff.mpr ⟨(whole_logBytes jsonWal_format _).reads, rfl⟩

theorem jsonWal_opText_injective : Function.Injective jsonWal.opText := by
  intro op op' same
  exact (codec_roundTrips (f := walOpFormat)).text_inj same

theorem jsonWal_free (t : String) : Fields.Free '|' (jsonWal.shaHex t) :=
  Sha256.free_hex (by decide) t

end KaiOs
