import LuaMachine.Coroutine
import LuaMachine.Proofs.Frame.Clear
import LuaMachine.Proofs.Invariant.Condition

/-!
Steady conditions: those that hold on to nothing a function may change in its own frame, in tables
or in captured variables. What the heap and the stack offer keeps each of them. A stable condition
does not hold on to which thread is running either. A tidy condition may hold on to what is above the
tops of frames, where the stack puts nothing but instructions do.
-/

namespace LuaMachine

/-- What a frame is given when it comes into being; it stays the same until the frame is gone. -/
structure Origin where
  function : Option FunctionId
  varargs : List Value
  site : CallSite
  wanted : Int

def Frame.origin (f : Frame) : Origin := ⟨f.function, f.varargs, f.site, f.wanted⟩

class Frame.Benign (g : Frame → Frame) : Prop where
  origin : ∀ f, (g f).origin = f.origin

/-- Whether the frame is guarded stays the same as well, and which registers are captured. -/
class Frame.Plain (g : Frame → Frame) : Prop extends Frame.Benign g where
  guard : ∀ f, (g f).guard = f.guard
  captured : ∀ f, (g f).captured = f.captured

/-- Nor does it change whether a comparison is open. -/
class Frame.Discreet (g : Frame → Frame) : Prop extends Frame.Plain g where
  negated : ∀ f, (g f).negated = f.negated

class Frame.Neat (g : Frame → Frame) : Prop where
  clear : ∀ {f : Frame}, f.Clear → (g f).Clear

namespace Machine

def modifyLevel (m : Machine) (t : ThreadId) (level : Nat) (g : Frame → Frame) : Machine :=
  { m with threads := m.threads.modify t.index fun th =>
      { th with frames := modifyFrames level g th.frames } }

def modifyTop (m : Machine) (t : ThreadId) (g : Frame → Frame) : Machine :=
  { m with threads := m.threads.modify t.index fun th =>
      { th with frames := modifyFrames (th.frames.size - 1) g th.frames } }

theorem modify_congr (m : Machine) (t : ThreadId) {f g : Thread → Thread}
    (h : f (m.threadAt t) = g (m.threadAt t)) :
    m.threads.modify t.index f = m.threads.modify t.index g := by
  apply Array.ext_getElem?
  intro i
  rw [Array.getElem?_modify, Array.getElem?_modify]
  split
  · next hi =>
    subst hi
    cases ht : m.threads[t.index]? with
    | none => rfl
    | some th =>
      have he : m.threadAt t = th := by simp [threadAt, Array.getD_eq_getD_getElem?, ht]
      rw [he] at h
      rw [Option.map_some, Option.map_some, h]
  · rfl

theorem modifyTop_congr {m : Machine} {t : ThreadId} {g g' : Frame → Frame}
    (h : g (m.frameAt t) = g' (m.frameAt t)) :
    m.modifyTop t g = m.modifyTop t g' := by
  unfold modifyTop
  congr 1
  refine m.modify_congr t ?_
  simp only [Thread.mk.injEq, and_true]
  apply Array.ext_getElem?
  intro j
  simp only [modifyFrames, Array.getElem?_modify]
  split
  · next hj =>
    subst hj
    rw [frameAt, Array.back?] at h
    cases hf : (m.threadAt t).frames[(m.threadAt t).frames.size - 1]? with
    | none => rfl
    | some f =>
      rw [hf] at h
      exact congrArg some h
  · rfl

def enterFrame (m : Machine) (t : ThreadId) (f : Frame) : Machine :=
  { m with threads := m.threads.modify t.index fun th => { th with frames := th.frames.push f } }

def closeAll (m : Machine) (captured : List (Nat × UpvalueId)) : Machine :=
  { m with upvalues := captured.foldl (fun us p =>
      us.setIfInBounds p.2.index (.closed (m.upvalueValue p.2))) m.upvalues }

def closedFrom (m : Machine) (t : ThreadId) (start : Nat) : Machine :=
  (m.closeAll ((m.frameAt t).captured.filter (start ≤ ·.1))).modifyTop t
    fun f => { f with captured := f.captured.filter (·.1 < start) }

def capturing (m : Machine) (t : ThreadId) (slot : Nat) : Machine :=
  ({ m with upvalues :=
      m.upvalues.push (.opened ⟨t, (m.threadAt t).frames.size - 1, slot⟩) } : Machine).modifyTop t
    fun f => { f with captured := (slot, ⟨m.upvalues.size⟩) :: f.captured }

/-- The frame on top of a thread is gone, and none of its upvalues is open. -/
def leaveFrame (m : Machine) (t : ThreadId) : Machine :=
  { m with
    upvalues := (m.closeAll (m.frameAt t).captured).upvalues
    threads := m.threads.modify t.index fun th => { th with frames := th.frames.pop } }

structure AtRest (m : Machine) (t : ThreadId) : Prop where
  there : t.index < m.threads.size
  parked : (m.threadAt t).parked = true

theorem any_parked_iff (m : Machine) (t : ThreadId) :
    (m.threads[t.index]?).any Thread.parked = true ↔ m.AtRest t := by
  by_cases ht : t.index < m.threads.size
  · have he : m.threadAt t = m.threads[t.index] := by
      rw [threadAt, Array.getD_eq_getD_getElem?, Array.getElem?_eq_getElem ht, Option.getD_some]
    rw [Array.getElem?_eq_getElem ht, Option.any_some, ← he]
    exact ⟨fun hp => ⟨ht, hp⟩, AtRest.parked⟩
  · rw [Array.getElem?_eq_none (Nat.le_of_not_lt ht), Option.any_none]
    exact ⟨nofun, fun h => absurd h.there ht⟩

def taking (m : Machine) (t : ThreadId) : Machine :=
  { m with
    threads := m.threads.modify t.index fun th => { th with parked := false }
    running := t }

def resting (m : Machine) (t previous : ThreadId) : Machine :=
  { m with
    threads := m.threads.modify t.index fun th => { th with parked := true }
    running := previous }

def RunsBytecode (m : Machine) (f : Frame) : Prop :=
  ∃ id p us, f.function = some id ∧
    m.functions[id.index]? = some { body := .bytecode p, upvalues := us }

theorem RunsBytecode.function_ne_none {m : Machine} {f : Frame} (h : m.RunsBytecode f) :
    f.function ≠ none := by
  obtain ⟨id, p, us, hf, -⟩ := h
  simp [hf]

theorem RunsBytecode.mono {m m' : Machine} {f g : Frame} (h : m.RunsBytecode f)
    (hm : m.functions.toList <+: m'.functions.toList) (hg : g.function = f.function) :
    m'.RunsBytecode g := by
  obtain ⟨id, p, us, hf, hp⟩ := h
  obtain ⟨rest, hr⟩ := hm
  refine ⟨id, p, us, hg.trans hf, ?_⟩
  rw [← Array.getElem?_toList] at hp ⊢
  rw [← hr, List.getElem?_append_left (List.getElem?_eq_some_iff.mp hp).1, hp]

theorem upvalueAt_of {m : Machine} {u : UpvalueId} {x : Upvalue}
    (h : m.upvalues[u.index]? = some x) : m.upvalueAt u = x := by
  rw [upvalueAt, Array.getD_eq_getD_getElem?, h, Option.getD_some]

/-- A change that leaves threads, upvalues, functions and limits alone. -/
class Aside (g : Machine → Machine) : Prop where
  running : ∀ m, (g m).running = m.running
  threads : ∀ m, (g m).threads = m.threads
  upvalues : ∀ m, (g m).upvalues = m.upvalues
  functions : ∀ m, (g m).functions = m.functions
  limits : ∀ m, (g m).limits = m.limits

end Machine

/-- A condition that operations on the heap keep, and neat ones on the running frame. -/
class Condition.Neat (K : Condition) : Prop where
  heap : ∀ {r y} (m m' : Machine), m'.threads = m.threads → m'.upvalues = m.upvalues →
    m.functions.toList <+: m'.functions.toList → m'.limits = m.limits → K r y m → K r y m'
  closed : ∀ {r y m} (v : Value), K r y m →
    K r y { m with upvalues := m.upvalues.push (.closed v) }
  /-- Assignment to a captured variable that is no register any more. -/
  assigned : ∀ {r y m} (u : UpvalueId) (v w : Value), m.upvalueAt u = .closed w → K r y m →
    K r y { m with upvalues := m.upvalues.setIfInBounds u.index (.closed v) }
  closing : ∀ {r y m} (start : Nat), K r y m → K r y (m.closedFrom r start)
  capturing : ∀ {r y m} (slot : Nat), m.RunsBytecode (m.frameAt r) →
    (∀ p ∈ (m.frameAt r).captured, p.1 ≠ slot) → K r y m → K r y (m.capturing r slot)
  neat : ∀ {r y m} (g : Frame → Frame) [Frame.Discreet g] [Frame.Neat g], K r y m →
    K r y (m.modifyTop r g)
  register : ∀ {r y m} (u : UpvalueId) (p : Register) (v : Value),
    m.upvalues[u.index]? = some (.opened p) → K r y m →
    K r y (m.modifyLevel p.thread p.level (·.setSlot p.slot v))

/-- A condition that instructions keep which call nothing. -/
class Condition.Firm (K : Condition) : Prop extends Condition.Neat K where
  discreet : ∀ {r y m} (g : Frame → Frame) [Frame.Discreet g], K r y m → K r y (m.modifyTop r g)
  neat := fun g _ _ h => discreet g h

class Condition.Tidy (K : Condition) : Prop extends Condition.Neat K where
  top : ∀ {r y m} (t : ThreadId) (g : Frame → Frame) [Frame.Plain g] [Frame.Neat g], K r y m →
    K r y (m.modifyTop t g)
  neat := fun g _ _ h => top _ g h
  frame : ∀ {r y y'} (m m' : Machine) (g : Frame → Frame) [Frame.Plain g] [Frame.Neat g], K r y m →
    K r y' m' → K r y' (m'.modifyLevel r ((m.threadAt r).frames.size - 1) g)
  thread : ∀ {r y m}, K r y m → K r y { m with threads := m.threads.push {} }
  transfer : ∀ {r y m} (vs : List Value), K r y m →
    K r y { m with threads := m.threads.modify r.index fun th => { th with transfer := vs } }

class Condition.Steady (K : Condition) : Prop extends Condition.Firm K where
  top : ∀ {r y m} (t : ThreadId) (g : Frame → Frame) [Frame.Plain g], K r y m →
    K r y (m.modifyTop t g)
  discreet := fun g _ h => top _ g h
  frame : ∀ {r y y'} (m m' : Machine) (g : Frame → Frame) [Frame.Plain g], K r y m → K r y' m' →
    K r y' (m'.modifyLevel r ((m.threadAt r).frames.size - 1) g)
  thread : ∀ {r y m}, K r y m → K r y { m with threads := m.threads.push {} }
  transfer : ∀ {r y m} (vs : List Value), K r y m →
    K r y { m with threads := m.threads.modify r.index fun th => { th with transfer := vs } }

instance Condition.Steady.tidy {K : Condition} [hK : K.Steady] : K.Tidy :=
  { hK.toNeat with
    top := fun t g _ _ h => hK.top t g h
    frame := fun m m' g _ _ h h' => hK.frame m m' g h h'
    thread := hK.thread
    transfer := hK.transfer }

/-- Whatever keeps the condition may do so in another thread. -/
class Condition.Stable (K : Condition) : Prop extends Condition.Steady K where
  inThread : ∀ {α : Type} (t : ThreadId) (x : Exec α), Exec.Keeps (Condition.away K) x →
    Exec.Keeps (Condition.quiet K) (Exec.inThread t x)

theorem Condition.kept_closing {K : Condition} {r y m}
    (hu : ∀ {m} (u : UpvalueId) (v : Value), K r y m →
      K r y { m with upvalues := m.upvalues.setIfInBounds u.index (.closed v) })
    (hf : ∀ {m} (captured : Frame → List (Nat × UpvalueId)), K r y m →
      K r y (m.modifyTop r fun f => { f with captured := captured f }))
    (start : Nat) (hm : K r y m) : K r y (m.closedFrom r start) := by
  have hl : ∀ (l : List (Nat × UpvalueId)) (value : UpvalueId → Value) {m}, K r y m →
      K r y { m with upvalues := l.foldl (fun us p =>
        us.setIfInBounds p.2.index (.closed (value p.2))) m.upvalues } := fun l value => by
    induction l with
    | nil => exact id
    | cons p l ih => exact fun hm => ih (hu p.2 _ hm)
  exact hf _ (hl _ m.upvalueValue hm)

theorem Condition.mapAway {K : Condition} {r y} {m m' : Machine}
    (h : K.away r y m) (hm : K r y m → K r y m') : K.away r y m' :=
  ⟨⟨h.1.1, hm h.1.2⟩, h.2⟩

instance Condition.Tidy.away {K : Condition} [hK : K.Tidy] : Condition.Tidy K.away where
  heap m m' ht hu hf hl h := mapAway h (hK.heap m m' ht hu hf hl)
  closed v h := mapAway h (hK.closed v)
  assigned u v w hu h := mapAway h (hK.assigned u v w hu)
  closing start h := mapAway h (hK.closing start)
  capturing slot hf hs h := mapAway h (hK.capturing slot hf hs)
  top t g _ _ h := mapAway h (hK.top t g)
  frame m m' g _ _ h h' := mapAway h' (hK.frame m m' g h.1.2)
  register u p v hu h := mapAway h (hK.register u p v hu)
  thread h := mapAway h hK.thread
  transfer vs h := mapAway h (hK.transfer vs)

instance Condition.Tidy.quiet {K : Condition} [hK : K.Tidy] : Condition.Tidy K.quiet where
  heap m m' ht hu hf hl h := ⟨h.1, hK.heap m m' ht hu hf hl h.2⟩
  closed v h := ⟨h.1, hK.closed v h.2⟩
  assigned u v w hu h := ⟨h.1, hK.assigned u v w hu h.2⟩
  closing start h := ⟨h.1, hK.closing start h.2⟩
  capturing slot hf hs h := ⟨h.1, hK.capturing slot hf hs h.2⟩
  top t g _ _ h := ⟨h.1, hK.top t g h.2⟩
  frame m m' g _ _ h h' := ⟨h'.1, hK.frame m m' g h.2 h'.2⟩
  register u p v hu h := ⟨h.1, hK.register u p v hu h.2⟩
  thread h := ⟨h.1, hK.thread h.2⟩
  transfer vs h := ⟨h.1, hK.transfer vs h.2⟩

instance (g : Option Guard) : Frame.Benign (fun f => { f with guard := g }) := ⟨fun _ => rfl⟩

instance (captured : Frame → List (Nat × UpvalueId)) :
    Frame.Benign (fun f => { f with captured := captured f }) := ⟨fun _ => rfl⟩

namespace Frame.Discreet

instance (v : Value) : Discreet (·.push v) :=
  { origin _ := rfl, guard _ := rfl, captured _ := rfl, negated _ := rfl }

instance (vs : List Value) : Discreet (·.pushAll vs) :=
  { origin _ := rfl, guard _ := rfl, captured _ := rfl, negated _ := rfl }

instance (n : Nat) : Discreet (·.drop n) :=
  { origin _ := rfl, guard _ := rfl, captured _ := rfl, negated _ := rfl }

instance (h : Frame → Nat) : Discreet (fun f => f.setTop (h f)) :=
  { origin _ := rfl, guard _ := rfl, captured _ := rfl, negated _ := rfl }

instance (i : Nat) (v : Value) : Discreet (·.setSlot i v) :=
  { origin _ := rfl, guard _ := rfl, captured _ := rfl, negated _ := rfl }

instance (pc : Frame → Nat) : Discreet (fun f => { f with pc := pc f }) :=
  { origin _ := rfl, guard _ := rfl, captured _ := rfl, negated _ := rfl }

instance (r : Nat) : Discreet (fun f => { f with concatAt := r }) :=
  { origin _ := rfl, guard _ := rfl, captured _ := rfl, negated _ := rfl }

instance (start : Nat) (n : Int) : Discreet (·.rotate start n) where
  origin f := by
    obtain ⟨w, h⟩ := f.exists_rotate_eq start n
    rw [h]
    rfl
  guard f := by
    obtain ⟨w, h⟩ := f.exists_rotate_eq start n
    rw [h]
  captured f := by
    obtain ⟨w, h⟩ := f.exists_rotate_eq start n
    rw [h]
  negated f := by
    obtain ⟨w, h⟩ := f.exists_rotate_eq start n
    rw [h]

end Frame.Discreet

namespace Frame.Neat

instance (v : Value) : Neat (·.push v) := ⟨fun h => h.push v⟩

instance (vs : List Value) : Neat (·.pushAll vs) := ⟨fun h => h.pushAll vs⟩

instance (n : Nat) : Neat (·.drop n) := ⟨fun h => h.drop n⟩

instance (h : Frame → Nat) : Neat (fun f => f.setTop (h f)) := ⟨fun hf => hf.setTop _⟩

instance (start : Nat) (n : Int) : Neat (·.rotate start n) := ⟨fun h => h.rotate start n⟩

instance (pc : Frame → Nat) : Neat (fun f => { f with pc := pc f }) := ⟨id⟩

instance (r : Nat) : Neat (fun f => { f with concatAt := r }) := ⟨id⟩

instance (b : Bool) : Neat (fun f => { f with negated := b }) := ⟨id⟩

instance (g : Option Guard) : Neat (fun f => { f with guard := g }) := ⟨id⟩

end Frame.Neat

instance (b : Bool) : Frame.Plain (fun f => { f with negated := b }) :=
  { origin _ := rfl, guard _ := rfl, captured _ := rfl }

namespace Machine.Aside

instance (h : Machine → List Value) : Aside (fun m => { m with held := h m }) :=
  ⟨fun _ => rfl, fun _ => rfl, fun _ => rfl, fun _ => rfl, fun _ => rfl⟩

instance (h : Machine → List Value) : Aside (fun m => { m with shown := h m }) :=
  ⟨fun _ => rfl, fun _ => rfl, fun _ => rfl, fun _ => rfl, fun _ => rfl⟩

instance (h : Machine → Array (Entry Reply)) : Aside (fun m => { m with journal := h m }) :=
  ⟨fun _ => rfl, fun _ => rfl, fun _ => rfl, fun _ => rfl, fun _ => rfl⟩

instance (h : Machine → Array UInt8) : Aside (fun m => { m with printed := h m }) :=
  ⟨fun _ => rfl, fun _ => rfl, fun _ => rfl, fun _ => rfl, fun _ => rfl⟩

instance (h : Machine → List (Kind × TableId)) : Aside (fun m => { m with metatables := h m }) :=
  ⟨fun _ => rfl, fun _ => rfl, fun _ => rfl, fun _ => rfl, fun _ => rfl⟩

instance (h : Machine → Array Table) : Aside (fun m => { m with tables := h m }) :=
  ⟨fun _ => rfl, fun _ => rfl, fun _ => rfl, fun _ => rfl, fun _ => rfl⟩

end Machine.Aside

namespace Exec

variable {K : Condition}

section Aside

variable [hK : K.Neat]

theorem kept_aside {g : Machine → Machine} (hg : Machine.Aside g) {r y m} (h : K r y m) :
    K r y (g m) :=
  hK.heap m (g m) (hg.threads m) (hg.upvalues m) (hg.functions m ▸ List.prefix_rfl) (hg.limits m) h

theorem kept_running (t : ThreadId) {r y m} (h : K r y m) : K r y { m with running := t } :=
  hK.heap m _ rfl rfl List.prefix_rfl rfl h

instance keeps_modify (g : Machine → Machine) [hg : Machine.Aside g] : Keeps K (modify g) :=
  ⟨fun m h => ⟨hg.running m, kept_aside hg h⟩⟩

instance settles_modify {β : Type} (e : Error) (g : Machine → Machine) (f : Unit → Exec β)
    [hg : Machine.Aside g] [hf : ∀ a, Settles K e (f a)] : Settles K e (modify g >>= f) where
  ends m h := by
    change ((f ()) (g m)).Ends K m.running
    rw [← hg.running m]
    exact (hf ()).ends (g m) ((hg.running m).symm ▸ kept_aside hg h)

instance keeps_holding {α : Type} (vs : List Value) (x : Exec α) [hx : Keeps K x] :
    Keeps K (holding vs x) := by
  refine Keeps.bind inferInstance fun held => Keeps.bind inferInstance fun _ =>
    Keeps.attempt hx (fun a => ?_) fun e => ?_
  · exact Keeps.bind inferInstance fun _ => keeps_pure a
  · have := Settles.raise (K := K) (α := α) e
    exact settles_modify e _ fun _ => raise e

end Aside

instance keeps_inThread {α : Type} (t : ThreadId) (x : Exec α) [hK : K.Stable]
    [hx : Keeps K.away x] : Keeps K (inThread t x) := (hK.inThread t x hx).ofQuiet

instance keeps_modifyTidy (g : Frame → Frame) [Frame.Plain g] [Frame.Neat g] [hK : K.Tidy] :
    Keeps K (modifyFrame g) := ⟨fun m h => ⟨rfl, hK.top m.running g h⟩⟩

instance keeps_modifyFrame (g : Frame → Frame) [Frame.Discreet g] [hK : K.Firm] :
    Keeps K (modifyFrame g) := ⟨fun _ h => ⟨rfl, hK.discreet g h⟩⟩

instance keeps_newThread [hK : K.Tidy] : Keeps K (newThread {}) :=
  ⟨fun _ h => ⟨rfl, hK.thread h⟩⟩

variable [hK : K.Neat]

instance keeps_modifyNeat (g : Frame → Frame) [Frame.Discreet g] [Frame.Neat g] :
    Keeps K (modifyFrame g) := ⟨fun _ h => ⟨rfl, hK.neat g h⟩⟩

instance keeps_readFrame {α : Type} (f : Frame → α) : Keeps K (readFrame f) := keeps_read _

instance keeps_readThread {α : Type} (f : Thread → α) : Keeps K (readThread f) := keeps_read _

instance keeps_frameCount : Keeps K frameCount := keeps_read _

instance keeps_newTable (t : Table) : Keeps K (newTable t) :=
  ⟨fun m h => ⟨rfl, hK.heap m _ rfl rfl List.prefix_rfl rfl h⟩⟩

instance keeps_newFunction (f : Function) : Keeps K (newFunction f) :=
  ⟨fun m h => ⟨rfl, hK.heap m _ rfl rfl (by simp) rfl h⟩⟩

instance keeps_newClosed (v : Value) : Keeps K (newUpvalue (.closed v)) :=
  ⟨fun _ h => ⟨rfl, hK.closed v h⟩⟩

instance keeps_newNative (f : Native) (vs : List Value) : Keeps K (newNative f vs) := by
  unfold newNative
  infer_instance

instance keeps_modifyTable (t : TableId) (f : Table → Table) : Keeps K (modifyTable t f) :=
  keeps_modify _

instance keeps_putRaw (t : TableId) (k v : Value) : Keeps K (putRaw t k v) := by
  unfold putRaw
  split <;> infer_instance

instance keeps_readUpvalue (u : UpvalueId) : Keeps K (readUpvalue u) := keeps_read _

instance keeps_writeUpvalue (u : UpvalueId) (v : Value) : Keeps K (writeUpvalue u v) where
  ends m h := by
    change Outcome.Ends K m.running ((match m.upvalues[u.index]? with
      | some (.opened r) => modifyFrameAt r.thread r.level (·.setSlot r.slot v)
      | some (.closed _) => setUpvalue u (.closed v)
      | none => pure ()) m)
    cases hu : m.upvalues[u.index]? with
    | none => exact ⟨rfl, h⟩
    | some x =>
      cases x with
      | opened p => exact ⟨rfl, hK.register u p v hu h⟩
      | closed w => exact ⟨rfl, hK.assigned u v w (Machine.upvalueAt_of hu) h⟩

theorem upvalueValue_close (m : Machine) (u u' : UpvalueId) :
    ({ m with upvalues :=
      m.upvalues.setIfInBounds u.index (.closed (m.upvalueValue u)) } : Machine).upvalueValue u' =
      m.upvalueValue u' := by
  by_cases hs : u.index < m.upvalues.size
  · by_cases hu : u = u'
    · subst hu
      simp [Machine.upvalueValue, Machine.upvalueAt, hs, Upvalue.get]
    · have hi : u.index ≠ u'.index := fun h => hu (by cases u; cases u'; simp_all)
      simp only [Machine.upvalueValue, Machine.upvalueAt, Array.getD_eq_getD_getElem?,
        Array.getElem?_setIfInBounds_ne hi]
      rfl
  · rw [Array.setIfInBounds_eq_of_size_le (Nat.le_of_not_lt hs)]

theorem ends_inThread {α : Type} {K L : Condition} {t : ThreadId} {x : Exec α} {m : Machine}
    (hm : K m.running false m) (hx : m.AtRest t → (x (m.taking t)).Ends L t)
    (hback : ∀ y m', m.AtRest t → L t y m' → K m.running y (m'.resting t m.running)) :
    (inThread t x m).Ends K m.running := by
  change ((if !(m.threads[t.index]?).any Thread.parked then (pure none : Exec (Option α)) else _) m).Ends
    K m.running
  cases hr : (m.threads[t.index]?).any Thread.parked with
  | false => exact ⟨rfl, hm⟩
  | true =>
    have hp := (m.any_parked_iff t).mp hr
    change (((attempt x) (m.taking t)).andThen _).Ends K m.running
    have he := hx hp
    unfold attempt
    cases hr : x (m.taking t) with
    | exhausted => trivial
    | done a m' | raised e m' =>
      rw [hr] at he
      exact ⟨rfl, hback _ m' hp he.2⟩

theorem run_closeAll (l : List (Nat × UpvalueId)) (m : Machine) :
    (l.forM fun p => closeUpvalue p.2) m = .done () (m.closeAll l) := by
  induction l generalizing m with
  | nil => rfl
  | cons p l ih =>
    have h := ih { m with
      upvalues := m.upvalues.setIfInBounds p.2.index (.closed (m.upvalueValue p.2)) }
    unfold Machine.closeAll at h ⊢
    simp only [upvalueValue_close] at h
    exact h

theorem run_closeFrom (start : Nat) (m : Machine) : closeFrom start m =
    if m.frame.captured.isEmpty then .done () m else .done () (m.closedFrom m.running start) := by
  change (if !m.frame.captured.isEmpty then _ else _ : Exec Unit) m = _
  cases m.frame.captured.isEmpty with
  | true => rfl
  | false =>
    change (((m.frame.captured.filter (start ≤ ·.1)).forM fun p => closeUpvalue p.2) m).andThen _ = _
    rw [run_closeAll]
    rfl

instance keeps_closeFrom (start : Nat) : Keeps K (closeFrom start) where
  ends m h := by
    rw [run_closeFrom]
    split
    · exact ⟨rfl, h⟩
    · exact ⟨rfl, hK.closing start h⟩

theorem capture_found {slot : Nat} {m : Machine} {p : Nat × UpvalueId}
    (h : m.frame.captured.find? (·.1 = slot) = some p) : capture slot m = .done p.2 m := by
  unfold capture readFrame read
  dsimp only [bind, Outcome.andThen]
  rw [h]
  rfl

theorem capture_fresh {slot : Nat} {m : Machine}
    (h : m.frame.captured.find? (·.1 = slot) = none) :
    capture slot m = .done ⟨m.upvalues.size⟩ (m.capturing m.running slot) := by
  unfold capture readFrame read
  dsimp only [bind, Outcome.andThen]
  rw [h]
  rfl

end Exec
end LuaMachine
