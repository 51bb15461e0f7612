import LuaMachine.Proofs.Suspension.Native

namespace LuaMachine

open Machine Exec Relation

namespace Machine

inductive Unwound (m : Machine) : Machine → Prop
  | refl : m.Unwound m
  | call {m' : Machine} (held : List Value) (h : m.Unwound m') :
      m.Unwound { m'.shallower false with held }

variable {m m' : Machine} {t : ThreadId} {n h : Nat} {f : Frame} {site : CallSite} {wanted : Int}
  {vs : List Value}

theorem Unwound.running (h : m.Unwound m') : m'.running = m.running := by
  induction h with
  | refl => rfl
  | call held _ ih => exact ih

theorem Suspends.unwound (h : m.Unwound m') (hs : m.Suspends t f site wanted vs) :
    m'.Suspends t f site wanted vs := by
  induction h with
  | refl => exact hs
  | @call m' held _ ih =>
    have hth : ∃ k c, ({ m'.shallower false with held } : Machine).threadAt t =
        { m'.threadAt t with nesting := k, hostCalls := c } := by
      change ∃ k c, (m'.shallower false).threadAt t = _
      rw [shallower, threadAt_modify]
      split
      · exact ⟨_, _, rfl⟩
      · exact ⟨_, _, rfl⟩
    obtain ⟨k, c, hth⟩ := hth
    refine ⟨?_, ?_, ?_, ?_⟩
    · rw [hth]
      exact ih.inner
    · unfold frameAt
      rw [hth]
      exact ih.frame
    · rw [hth]
      exact ih.pending
    · rw [hth]
      exact ih.transfer

end Machine

structure Reentry.LetsThrough (re : Reentry) (x : Outcome (Option CallSite)) (m : Machine)
    (nargs : Nat) (wanted : Int) : Prop where
  exhausted : callYieldable re nargs wanted m = .exhausted → x = .exhausted
  yields : ∃ held, ∀ m', callYieldable re nargs wanted m = .raised .yield m' →
    x = .raised .yield { m' with held }

/-- A loop comes to a point, or the loop of a metamethod does that one of its instructions waits for.
The reentry there has the fuel `inner`. -/
inductive Host.Comes (host : Host) (inner : Nat) (r : Point) : (fuel stop : Nat) → Point → Prop
  | here {stop : Nat} {p : Point} :
      ReflTransGen (Point.Moves (host.reentry inner) stop) p r → host.Comes inner r inner stop p
  | within {fuel stop nargs : Nat} {wanted : Int} {p q : Point} {x : Outcome (Option CallSite)}
      {m₁ m₂ : Machine} :
      ReflTransGen (Point.Moves (host.reentry (fuel + 1)) stop) p q →
      q.result? stop = none → q.next? (host.reentry (fuel + 1)) stop = x.point? →
      (host.reentry (fuel + 1)).LetsThrough x m₁ nargs wanted →
      m₁.thread.nesting < m₁.limits.nesting → 1 < m₁.frameCount →
      enter (host.reentry (fuel + 1)) nargs wanted .metamethod (m₁.deeper false) = .done true m₂ →
      host.Comes inner r fuel m₁.frameCount (.running m₂) → host.Comes inner r (fuel + 1) stop p

namespace Host.Comes

variable {host : Host} {m m' m₀ : Machine} {inner fuel stop : Nat} {site : Option CallSite}

theorem tail {p r r' : Point} (h : host.Comes inner r fuel stop p)
    (hr : ∀ stop, Point.Moves (host.reentry inner) stop r r') : host.Comes inner r' fuel stop p := by
  induction h with
  | here hw => exact .here (hw.tail (hr _))
  | within hw hq hnext ht hn hone he _ ih => exact .within hw hq hnext ht hn hone he ih

theorem yields {p : Point} (h : host.Comes inner (.failing .yield m) fuel stop p) (hs : 0 < stop)
    (hp : p = .start m₀ site)
    (hx : Exec.dispatch (host.reentry fuel) fuel stop site m₀ ≠ .exhausted) :
    ∃ m₁, Exec.dispatch (host.reentry fuel) fuel stop site m₀ = .raised .yield m₁ ∧
      m.Unwound m₁ := by
  induction h generalizing m₀ site with
  | @here stop p hw =>
    subst hp
    exact ⟨m, Point.dispatch_result hs hw rfl hx, .refl⟩
  | @within fuel stop nargs wanted p q x m₁ m₂ hw hq hnext ht hn hone he _ ih =>
    subst hp
    have hloop : callYieldable (host.reentry (fuel + 1)) nargs wanted m₁ =
        (Exec.dispatch (host.reentry fuel) fuel m₁.frameCount none m₂).change (·.shallower false) := by
      have hc : (m₁.deeper false).frameCount = m₁.frameCount :=
        congrArg Array.size (frames_deeper m₁ false m₁.running)
      rw [callYieldable, nested_eq, if_neg (Nat.not_le.mpr hn), enterAndRun, run_bind, run_frameCount,
        Outcome.andThen_done, run_bind, he, Outcome.andThen_done, hc]
      rfl
    by_cases hd : Exec.dispatch (host.reentry fuel) fuel m₁.frameCount none m₂ = .exhausted
    · rw [hd] at hloop
      rw [ht.exhausted hloop] at hnext
      exact absurd (Point.dispatch_exhausted hs hw hnext hq) hx
    · obtain ⟨m₃, hd, hu⟩ := ih (by omega) rfl hd
      rw [hd] at hloop
      obtain ⟨held, ht⟩ := ht.yields
      rw [ht _ hloop] at hnext
      exact ⟨_, Point.dispatch_result hs (hw.tail hnext) rfl hx, hu.call held⟩

theorem surfaces {p : Point} (h : host.Comes inner (.running m) fuel stop p)
    (hy : execute (host.reentry inner) m = .raised .yield m') (hs : 0 < stop)
    (hp : p = .start m₀ site)
    (hx : Exec.dispatch (host.reentry fuel) fuel stop site m₀ ≠ .exhausted) :
    ∃ m₁, Exec.dispatch (host.reentry fuel) fuel stop site m₀ = .raised .yield m₁ ∧
      m'.Unwound m₁ :=
  (h.tail fun _ => congrArg Outcome.point? hy).yields hs hp hx

end Host.Comes
end LuaMachine
