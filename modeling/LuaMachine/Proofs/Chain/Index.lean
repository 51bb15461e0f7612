import LuaMachine.Proofs.Chain.Call
import LuaMachine.Proofs.Chain.Visit

namespace LuaMachine

open Machine Exec

namespace Exec

variable (re : Reentry) {m : Machine} {v k w : Value} {n : Nat}

theorem indexChain_eq (n : Nat) (v k : Value) (m : Machine) :
    indexChain re n v k m = match m.indexFinding n v k with
      | .value r => .done r m
      | .fault cause => .raised (.fault cause m.location) m
      | .handler h args => callHandler re h args true m := by
  induction n generalizing v with
  | zero => rfl
  | succ n ih =>
    rw [indexChain, indexFinding, run_bind, run_read, Outcome.andThen_done]
    cases indexStep m v k with
    | handler h =>
      cases h with
      | function f => rfl
      | _ => exact ih _
    | _ => rfl

theorem index_eq (v k : Value) (m : Machine) :
    index re v k m = match m.indexFinding chainLimit v k with
      | .value r => .done r m
      | .fault cause => .raised (.fault cause m.location) m
      | .handler h args => holding [v] (callHandler re h args true) m := by
  rw [index, run_holding, indexChain_eq, indexFinding_held]
  cases m.indexFinding chainLimit v k with
  | value r => rfl
  | fault cause => rfl
  | handler h args => exact (run_holding [v] (callHandler re h args true) m).symm

end Exec

/-- How `v[k]` follows the chain of handlers. Where no function is called, nothing changes. -/
structure Machine.FollowsIndex (m : Machine) (re : Reentry) (v k : Value) : Prop where
  ends : ∃ n w, m.Visits .index k v n w ∧
    (n = chainLimit ∨ n < chainLimit ∧ m.Settles .index k w)
  unique : ∀ {n w w'}, m.Visits .index k v n w → m.Visits .index k v n w' → w = w'
  found : ∀ {n w}, m.Visits .index k v n w → n < chainLimit → m.stored w k ≠ .nil →
    index re v k m = .done (m.stored w k) m
  called : ∀ {n w f}, m.Active → m.Visits .index k v n w → n < chainLimit → m.stored w k = .nil →
    m.handler w .index = .function f →
    re.CallsOnce m f [w, k] [v] 1 (·.headD .nil) (index re v k m)
  absent : ∀ {n t}, m.Visits .index k v n (.table t) → n < chainLimit →
    m.stored (.table t) k = .nil → m.handler (.table t) .index = .nil →
    index re v k m = .done .nil m
  stuck : ∀ {n w}, m.Visits .index k v n w → n < chainLimit → (∀ t, w ≠ .table t) →
    m.handler w .index = .nil →
    index re v k m = .raised (.fault (.notIndexable w.kind) m.location) m
  tooLong : ∀ {w}, m.Visits .index k v chainLimit w →
    index re v k m = .raised (.fault .indexChain m.location) m

theorem Machine.Visits.indexFinding_succ {m : Machine} {k v w : Value} {n : Nat}
    (h : m.Visits .index k v n w) (hn : n < chainLimit) :
    ∃ j, m.indexFinding chainLimit v k = m.indexFinding (j + 1) w k := by
  obtain ⟨j, hj⟩ := Nat.exists_eq_add_of_lt hn
  exact ⟨j, by rw [hj, Nat.add_assoc, h.indexFinding_eq]⟩

/-- Indexing follows the chain of handlers and comes to an end. -/
theorem Host.followsIndex (host : Host) (fuel : Nat) (m : Machine) (v k : Value) :
    m.FollowsIndex (host.reentry fuel) v k := by
  constructor
  case ends => exact exists_visits chainLimit v
  case unique => exact Visits.unique
  case found =>
    intro n w hv hn hs
    obtain ⟨j, hj⟩ := hv.indexFinding_succ hn
    rw [index_eq, hj, indexFinding, indexStep_found hs]
  case called =>
    intro n w f hm hv hn hs hh
    obtain ⟨j, hj⟩ := hv.indexFinding_succ hn
    rw [index_eq, hj, indexFinding, indexStep_handler hs (by simp [hh]), hh]
    exact callsOnce_value (host.shelters False.elim m.running fuel) hm f [w, k] [v]
  case absent =>
    intro n t hv hn hs hh
    obtain ⟨j, hj⟩ := hv.indexFinding_succ hn
    rw [index_eq, hj, indexFinding, indexStep_absent hs hh]
  case stuck =>
    intro n w hv hn ht hh
    obtain ⟨j, hj⟩ := hv.indexFinding_succ hn
    rw [index_eq, hj, indexFinding, indexStep_stuck ht hh]
  case tooLong =>
    intro w hv
    have hj := hv.indexFinding_eq 0
    rw [index_eq, ← Nat.add_zero chainLimit, hj, indexFinding]

/-- Table 2 is its own handler. Table 3 has nothing under a key, but table 4, which handles it, has a
function for its own handler. -/
def Machine.circling : Machine :=
  { Machine.new {} with
    functions := #[{ body := .native (.builtin .type) }]
    tables := #[{}, {}, { metatable := some ⟨5⟩ }, { metatable := some ⟨6⟩ },
      { metatable := some ⟨7⟩, entries := [(.bool true, .int 7)] },
      { entries := [(.string Event.index.key, .table ⟨2⟩)] },
      { entries := [(.string Event.index.key, .table ⟨4⟩)] },
      { entries := [(.string Event.index.key, .function ⟨0⟩)] }] }

theorem Host.followsIndex_circling :
    index (({} : Host).reentry 1) (.table ⟨2⟩) (.bool true) Machine.circling =
      .raised (.fault .indexChain none) Machine.circling ∧
    index (({} : Host).reentry 1) (.table ⟨3⟩) (.bool true) Machine.circling =
      .done (.int 7) Machine.circling ∧
    (({} : Host).reentry 1).CallsOnce Machine.circling ⟨0⟩ [.table ⟨4⟩, .bool false] [.table ⟨3⟩] 1
      (·.headD .nil) (index (({} : Host).reentry 1) (.table ⟨3⟩) (.bool false) Machine.circling) := by
  have hi (v k : Value) := ({} : Host).followsIndex 1 Machine.circling v k
  have hc : ∀ n, Machine.circling.Visits .index (.bool true) (.table ⟨2⟩) n (.table ⟨2⟩) := by
    intro n
    induction n with
    | zero => exact .start
    | succ n ih => exact ih.next ⟨rfl, rfl, nofun, nofun⟩
  have hp (b : Bool) : Machine.circling.Visits .index (.bool b) (.table ⟨3⟩) 1 (.table ⟨4⟩) :=
    Visits.start.next ⟨rfl, rfl, nofun, nofun⟩
  have hm : Machine.circling.Active := ⟨by decide, by decide, rfl, by decide⟩
  refine ⟨(hi _ _).tooLong (hc chainLimit), (hi _ _).found (hp true) (by decide) (by decide), ?_⟩
  exact (hi _ _).called hm (hp false) (by decide) rfl rfl

end LuaMachine
