import LuaMachine.Proofs.Chain.Call
import LuaMachine.Proofs.Chain.Visit
import LuaMachine.Proofs.Table.Heap

namespace LuaMachine

open Machine Exec

namespace Exec

variable (re : Reentry) {m : Machine} {k v w : Value} {n : Nat}

theorem putRaw_eq (t : TableId) (k x : Value) (m : Machine) :
    putRaw t k x m = match (m.table t).put k x with
      | .ok t' => .done () (m.withTable t t')
      | .error e => .raised (.fault (.badKey e) m.location) m := by
  unfold putRaw Table.put
  cases Key.ofValue? k with
  | none => rfl
  | some j => exact congrArg (Outcome.done ()) (m.modify_tables_eq t (·.putKey j x))

theorem assignChain_eq (n : Nat) (v k x : Value) (m : Machine) :
    assignChain re n v k x m = match m.assignFinding n v k x with
      | .value t => putRaw t k x m
      | .fault cause => .raised (.fault cause m.location) m
      | .handler h args => discard (callHandler re h args false) m := by
  induction n generalizing v with
  | zero => rfl
  | succ n ih =>
    rw [assignChain, assignFinding, run_bind, run_read, Outcome.andThen_done]
    cases assignStep m v k with
    | handler h =>
      cases h with
      | function f => rfl
      | _ => exact ih _
    | _ => rfl

theorem assign_eq (v k x : Value) (m : Machine) :
    assign re v k x m = match m.assignFinding chainLimit v k x with
      | .value t => putRaw t k x m
      | .fault cause => .raised (.fault cause m.location) m
      | .handler h args => holding [v] (discard (callHandler re h args false)) m := by
  rw [assign, run_holding, assignChain_eq, assignFinding_held]
  cases m.assignFinding chainLimit v k x with
  | value t =>
    have ht : ({ m with held := [v] ++ m.held } : Machine).table t = m.table t := rfl
    dsimp only
    rw [putRaw_eq, putRaw_eq, ht]
    cases (m.table t).put k x <;> rfl
  | fault cause => rfl
  | handler h args => exact (run_holding [v] (discard (callHandler re h args false)) m).symm

end Exec

/-- How `v[k] = x` follows the chain of handlers. -/
structure Machine.FollowsAssign (m : Machine) (re : Reentry) (v k x : Value) : Prop where
  ends : ∃ n w, m.Visits .newIndex k v n w ∧
    (n = chainLimit ∨ n < chainLimit ∧ m.Settles .newIndex k w)
  unique : ∀ {n w w'}, m.Visits .newIndex k v n w → m.Visits .newIndex k v n w' → w = w'
  stored : ∀ {n t t'}, m.Visits .newIndex k v n (.table t) → n < chainLimit →
    m.stored (.table t) k ≠ .nil ∨ m.handler (.table t) .newIndex = .nil →
    (m.table t).put k x = .ok t' → assign re v k x m = .done () (m.withTable t t') ∧
      (t.index < m.tables.size → (m.withTable t t').table t = t') ∧
      ∀ u, u ≠ t → (m.withTable t t').table u = m.table u
  refused : ∀ {n t e}, m.Visits .newIndex k v n (.table t) → n < chainLimit →
    m.stored (.table t) k ≠ .nil ∨ m.handler (.table t) .newIndex = .nil →
    (m.table t).put k x = .error e →
    assign re v k x m = .raised (.fault (.badKey e) m.location) m
  stuck : ∀ {n w}, m.Visits .newIndex k v n w → n < chainLimit → (∀ t, w ≠ .table t) →
    m.handler w .newIndex = .nil →
    assign re v k x m = .raised (.fault (.notIndexable w.kind) m.location) m
  tooLong : ∀ {w}, m.Visits .newIndex k v chainLimit w →
    assign re v k x m = .raised (.fault .newIndexChain m.location) m
  called : ∀ {n w f}, m.Active → m.Visits .newIndex k v n w → n < chainLimit →
    m.stored w k = .nil → m.handler w .newIndex = .function f →
    re.CallsOnce m f [w, k, x] [v] 0 (fun _ => ()) (assign re v k x m)

theorem Machine.Visits.assignFinding_succ {m : Machine} {k v w x : Value} {n : Nat}
    (h : m.Visits .newIndex k v n w) (hn : n < chainLimit) :
    ∃ j, m.assignFinding chainLimit v k x = m.assignFinding (j + 1) w k x := by
  obtain ⟨j, hj⟩ := Nat.exists_eq_add_of_lt hn
  exact ⟨j, by rw [hj, Nat.add_assoc, h.assignFinding_eq]⟩

/-- Assignment follows the chain of handlers and stores into one table, calls one function or fails. -/
theorem Host.followsAssign (host : Host) (fuel : Nat) (m : Machine) (v k x : Value) :
    m.FollowsAssign (host.reentry fuel) v k x := by
  constructor
  case ends => exact exists_visits chainLimit v
  case unique => exact Visits.unique
  case stored =>
    intro n t t' hv hn hs hp
    obtain ⟨j, hj⟩ := hv.assignFinding_succ hn
    refine ⟨?_, table_withTable_self, fun u hu => table_withTable_of_ne hu⟩
    rw [assign_eq, hj, assignFinding, assignStep_store hs]
    dsimp only
    rw [putRaw_eq, hp]
  case refused =>
    intro n t e hv hn hs hp
    obtain ⟨j, hj⟩ := hv.assignFinding_succ hn
    rw [assign_eq, hj, assignFinding, assignStep_store hs]
    dsimp only
    rw [putRaw_eq, hp]
  case stuck =>
    intro n w hv hn ht hh
    obtain ⟨j, hj⟩ := hv.assignFinding_succ hn
    rw [assign_eq, hj, assignFinding, assignStep_stuck ht hh]
  case tooLong =>
    intro w hv
    have hj := hv.assignFinding_eq (x := x) 0
    rw [assign_eq, ← Nat.add_zero chainLimit, hj, assignFinding]
  case called =>
    intro n w f hm hv hn hs hh
    obtain ⟨j, hj⟩ := hv.assignFinding_succ hn
    rw [assign_eq, hj, assignFinding, assignStep_handler hs (by simp [hh]), hh]
    exact callsOnce_effect (host.shelters False.elim m.running fuel) hm f [w, k, x] [v]

/-- Table 2 has nothing under a key and is handled by table 3, which takes the value. Table 4 is its own
handler, and a function handles table 5. -/
def Machine.redirecting : Machine :=
  { Machine.new {} with
    functions := #[{ body := .native (.builtin .type) }]
    tables := #[{}, {}, { metatable := some ⟨6⟩ }, {}, { metatable := some ⟨7⟩ },
      { metatable := some ⟨8⟩ },
      { entries := [(.string Event.newIndex.key, .table ⟨3⟩)] },
      { entries := [(.string Event.newIndex.key, .table ⟨4⟩)] },
      { entries := [(.string Event.newIndex.key, .function ⟨0⟩)] }] }

theorem Host.followsAssign_redirecting :
    assign (({} : Host).reentry 1) (.table ⟨2⟩) (.bool true) (.int 7) Machine.redirecting =
      .done () (Machine.redirecting.withTable ⟨3⟩
        { entries := [(.bool true, .int 7)], changed := true }) ∧
    assign (({} : Host).reentry 1) (.table ⟨2⟩) .nil (.int 7) Machine.redirecting =
      .raised (.fault (.badKey .nil) none) Machine.redirecting ∧
    assign (({} : Host).reentry 1) (.table ⟨4⟩) (.bool true) (.int 7) Machine.redirecting =
      .raised (.fault .newIndexChain none) Machine.redirecting ∧
    (({} : Host).reentry 1).CallsOnce Machine.redirecting ⟨0⟩
      [.table ⟨5⟩, .bool true, .int 7] [.table ⟨5⟩] 0 (fun _ => ())
      (assign (({} : Host).reentry 1) (.table ⟨5⟩) (.bool true) (.int 7) Machine.redirecting) := by
  have ha (v k x : Value) := ({} : Host).followsAssign 1 Machine.redirecting v k x
  have hp (k : Value) (hk : ({ metatable := some ⟨6⟩ } : Table).get k = .nil) :
      Machine.redirecting.Visits .newIndex k (.table ⟨2⟩) 1 (.table ⟨3⟩) :=
    Visits.start.next ⟨hk, rfl, nofun, nofun⟩
  have hc : ∀ n, Machine.redirecting.Visits .newIndex (.bool true) (.table ⟨4⟩) n (.table ⟨4⟩) := by
    intro n
    induction n with
    | zero => exact .start
    | succ n ih => exact ih.next ⟨rfl, rfl, nofun, nofun⟩
  have hm : Machine.redirecting.Active := ⟨by decide, by decide, rfl, by decide⟩
  refine ⟨?_, ?_, (ha _ _ _).tooLong (hc chainLimit), ?_⟩
  · exact ((ha _ _ _).stored (hp _ rfl) (by decide) (.inr rfl) rfl).1
  · exact (ha _ _ _).refused (hp _ rfl) (by decide) (.inr rfl) rfl
  · exact (ha _ _ _).called hm .start (by decide) rfl rfl

end LuaMachine
