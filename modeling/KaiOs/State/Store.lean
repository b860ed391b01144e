import KaiOs.State.Merkle

/-! `state/src/state.rs`: the deterministic key-value state and its transactions. -/
namespace KaiOs

inductive Tx where
  | set (key value : String)
  | remove (key : String)
  deriving DecidableEq, Repr

structure StateStore where
  entries : BTreeMap String String

namespace StateStore

def new : StateStore := ⟨∅⟩

def apply (s : StateStore) : Tx → StateStore
  | .set key value => ⟨s.entries.insert key value⟩
  | .remove key => ⟨s.entries.erase key⟩

def applyAll (s : StateStore) (txs : List Tx) : StateStore := txs.foldl apply s

def stateRoot (shaHex : String → String) (s : StateStore) : String := merkleRoot shaHex s.entries

@[ext] theorem ext {s t : StateStore} (h : s.entries = t.entries) : s = t := by
  cases s
  exact congrArg mk h

@[simp] theorem applyAll_nil (s : StateStore) : s.applyAll [] = s := rfl

@[simp] theorem applyAll_cons (s : StateStore) (tx : Tx) (txs : List Tx) :
    s.applyAll (tx :: txs) = (s.apply tx).applyAll txs := rfl

@[simp] theorem applyAll_append (s : StateStore) (txs more : List Tx) :
    s.applyAll (txs ++ more) = (s.applyAll txs).applyAll more := List.foldl_append

/-- The state that results from setting a list of entries one after the other. -/
def ofEntries (es : List (String × String)) : StateStore :=
  new.applyAll (es.map fun e => .set e.1 e.2)

theorem ofEntries_entries (es : List (String × String)) :
    (ofEntries es).entries = Std.ExtTreeMap.ofList es := by
  rw [Std.ExtTreeMap.ofList_eq_foldl]
  have general (m : BTreeMap String String) :
      ((⟨m⟩ : StateStore).applyAll (es.map fun e => .set e.1 e.2)).entries =
        es.foldl (fun acc e => acc.insert e.1 e.2) m := by
    induction es generalizing m with
    | nil => rfl
    | cons e es ih => exact ih _
  exact general ∅

theorem ofEntries_toList (s : StateStore) : ofEntries s.entries.toList = s := by
  apply ext
  rw [ofEntries_entries]
  apply Std.ExtTreeMap.ext_getElem?
  intro k
  cases found : s.entries[k]? with
  | some v =>
      exact Std.ExtTreeMap.getElem?_ofList_of_mem Std.ReflCmp.compare_self
        Std.ExtTreeMap.distinct_keys_toList
        (Std.ExtTreeMap.mem_toList_iff_getElem?_eq_some.mpr found)
  | none =>
      apply Std.ExtTreeMap.getElem?_ofList_of_contains_eq_false
      apply Bool.not_eq_true _ |>.mp
      intro member
      rw [List.contains_iff_mem, List.mem_map] at member
      obtain ⟨e, stored, rfl⟩ := member
      rw [Std.ExtTreeMap.mem_toList_iff_getElem?_eq_some, found] at stored
      cases stored

end StateStore
end KaiOs
