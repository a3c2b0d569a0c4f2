import ScriptMachine.Proofs.HarmlessComputations
import ScriptMachine.Proofs.ChargeLogic

/-! What instructions do to the world that all machines share, and what they leave alone of the machine
they run on. They change globals and cells, but no function, and take nothing from instances, and they
may ask the run to stop, but never take that back. Only calls and returns change which frames there are.
When an instruction finds its code wrong, it says so of its own offset, unless it looks for a free
variable. None names a callee, and only calls refuse arguments. -/

namespace ScriptMachine

/-- One world is what acts and native code can make of another. -/
structure World.Follows (before after : World) : Prop where
  spared : before.store.Spares after.store
  remembered : before.store.Remembers after.store
  aborting : before.aborting = true → after.aborting = true

namespace World.Follows

theorem refl (world : World) : world.Follows world := ⟨.refl _, .refl _, id⟩

theorem trans {before middle after : World} (first : before.Follows middle)
    (second : middle.Follows after) : before.Follows after :=
  ⟨first.spared.trans second.spared, first.remembered.trans second.remembered,
    fun asked => second.aborting (first.aborting asked)⟩

theorem ofEq {before after : World} (same : after = before) : before.Follows after :=
  same ▸ .refl before

end World.Follows

theorem World.follows_compute {α : Type} (world : World) {allowed : Fault → Prop} {action : StoreM α}
    (behaves : StoreM.Behaves allowed action) : world.Follows (world.compute action).2 := by
  have spares := behaves.sparing world.store
  have remembers := behaves.remembering world.store
  obtain ⟨store, globals, aborting⟩ := world
  simp only [World.compute]
  cases done : action store with
  | ok value after =>
    rw [done] at spares remembers
    exact ⟨spares, remembers, id⟩
  | error fault after =>
    rw [done] at spares remembers
    exact ⟨spares, remembers, id⟩

theorem World.allowed_of_compute {α : Type} {world later : World} {allowed : Fault → Prop}
    {action : StoreM α} {fault : Fault} (behaves : StoreM.Behaves allowed action)
    (failed : world.compute action = (.error fault, later)) : allowed fault := by
  obtain ⟨store, globals, aborting⟩ := world
  simp only [World.compute] at failed
  cases done : action store with
  | ok value after => simp only [done, Prod.mk.injEq, reduceCtorEq, false_and] at failed
  | error reason after =>
    rw [done] at failed
    cases failed
    exact behaves.blameless store fault after done

theorem Machine.concern?_expiry {machine : Machine} {store : Store} {fault : Fault}
    (expired : machine.expiry? store = some fault) : fault.Unconcerned := by
  unfold Machine.expiry? at expired
  split at expired
  · obtain ⟨expiry, -, rfl⟩ := Option.map_eq_some_iff.mp expired
    cases expiry <;> rfl
  · cases expired

theorem Machine.expiry?_of_unlimited {machine : Machine} (unlimited : machine.deadline = .unlimited)
    (store : Store) : machine.expiry? store = none := by
  simp [Machine.expiry?, unlimited, Deadline.unlimited]

/-- Where a machine stands: for which call it was made, inside how many machines and frames, and
until when it may go on. -/
structure Station where
  serves : Option Ref
  nesting : Nat
  outerFrames : Nat
  deadline : Deadline

def Machine.station (machine : Machine) : Station :=
  ⟨machine.serves, machine.nesting, machine.outerFrames, machine.deadline⟩

/-- Where a machine stands and what it runs: the calls in progress and the code of the running one. -/
structure Setup where
  station : Station
  calls : CallStack
  code : Array UInt8

def Machine.setup (machine : Machine) : Setup := ⟨machine.station, machine.calls, machine.code⟩

/-- What a machine runs and which instruction it executes. -/
structure Scene where
  setup : Setup
  opIp : Nat

def Machine.scene (machine : Machine) : Scene := ⟨machine.setup, machine.opIp⟩

/-- Where a machine stands and which instruction it executes. -/
structure Post where
  station : Station
  opIp : Nat

def Machine.post (machine : Machine) : Post := ⟨machine.station, machine.opIp⟩

def Stop.offset? : Stop → Option Nat
  | fault reason => reason.offset?
  | outOfRange => none

/-- A stop for a slot that the stack does not have, or for a fault that is allowed. -/
def Stop.Within (allowed : Fault → Prop) : Stop → Prop
  | fault reason => allowed reason
  | outOfRange => True

/-- What is left after an act, compared with what was there before. Of the machine, only what a view
shows is compared. -/
structure Active.Follows {α : Type} (view : Machine → α) (before after : Active) : Prop where
  world : before.world.Follows after.world
  kept : view after.machine = view before.machine

theorem Active.Follows.trans {α : Type} {view : Machine → α} {before middle after : Active}
    (first : before.Follows view middle) (second : middle.Follows view after) :
    before.Follows view after :=
  ⟨first.world.trans second.world, second.kept.trans first.kept⟩

namespace Act

variable {α β γ : Type} {view : Machine → γ}

/-- An act that leaves functions and what a view shows of its machine alone, and takes no request to
stop back. -/
def Leaves (view : Machine → γ) (act : Act α) : Prop :=
  ∀ active : Active, active.Follows view (final (act active))

/-- An act that leaves the place of its machine alone. -/
abbrev Tame (act : Act α) : Prop := Leaves Machine.station act

/-- An act that neither calls nor returns. -/
abbrev Orderly (act : Act α) : Prop := Leaves Machine.setup act

/-- An outcome with the scene as it was. A failure blames the instruction of the scene, or is for a fault
that is allowed. -/
inductive Stays (allowed : Fault → Prop) (before : Active) : EStateM.Result Stop Active α → Prop where
  | ok {value : α} {after : Active} (follows : before.Follows Machine.scene after) :
      Stays allowed before (.ok value after)
  | error {stop : Stop} {after : Active} (follows : before.Follows Machine.scene after)
      (within : stop.Within allowed) : Stays allowed before (.error stop after)
  | here {after : Active} (follows : before.Follows Machine.scene after) :
      Stays allowed before (.error (.fault (.invalidInstruction before.machine.opIp)) after)

/-- An act that neither calls nor returns. It fails with faults that are allowed, or blames its own
instruction. -/
def Settles (allowed : Fault → Prop) (act : Act α) : Prop :=
  ∀ active : Active, Stays allowed active (act active)

/-- An act that neither calls nor returns, and that blames its own instruction if it blames anybody. -/
abbrev Owns (act : Act α) : Prop := Settles Fault.Unconcerned act

/-- An act that has neither called nor returned if it fails, and then fails as allowed or blames its own
instruction. -/
def FailsInPlace (allowed : Fault → Prop) (act : Act α) : Prop :=
  ∀ active stop after, act active = .error stop after →
    Stays (α := α) allowed active (.error stop after)

theorem leaves_compositional (view : Machine → γ) :
    Compositional fun {α : Type} (act : Act α) => Leaves view act where
  pure _ active := ⟨.refl active.world, rfl⟩
  bind {_ _ first rest} begins next active := by
    have begun := begins active
    simp only [Bind.bind, EStateM.bind]
    cases done : first active with
    | ok value middle =>
      rw [done] at begun
      exact begun.trans (next value middle)
    | error stop after =>
      rw [done] at begun
      exact begun

namespace Leaves

theorem bind {first : Act α} {rest : α → Act β} (begins : Leaves view first)
    (next : ∀ value, Leaves view (rest value)) : Leaves view (first >>= rest) :=
  (leaves_compositional view).bind begins next

theorem ite {condition : Prop} [Decidable condition] {yes no : Act α} (positive : Leaves view yes)
    (negative : Leaves view no) : Leaves view (if condition then yes else no) := by
  split
  · exact positive
  · exact negative

theorem pure (value : α) : Leaves view (Pure.pure value : Act α) :=
  (leaves_compositional view).pure value

theorem thenProceed {act : Act Unit} (leaves : Leaves view act) :
    Leaves view (Act.thenProceed act) :=
  leaves.bind fun _ => .pure _

theorem ofWorld {act : Act α}
    (same : ∀ world machine, (final (act ⟨world, machine⟩)).world = world ∧
      view (final (act ⟨world, machine⟩)).machine = view machine) : Leaves view act :=
  fun active => ⟨.ofEq (same active.world active.machine).1, (same active.world active.machine).2⟩

end Leaves

theorem Leaves.coarser {act : Act α} {δ : Type} {other : Machine → δ} (leaves : Leaves view act)
    (coarser : ∀ before after, view after = view before → other after = other before) :
    Leaves other act :=
  fun active => ⟨(leaves active).world, coarser _ _ (leaves active).kept⟩

theorem Leaves.orderly {act : Act α} (leaves : Leaves Machine.scene act) : Orderly act :=
  leaves.coarser fun _ _ same => congrArg Scene.setup same

theorem Leaves.posted {act : Act α} (leaves : Leaves Machine.scene act) : Leaves Machine.post act :=
  leaves.coarser fun _ _ same => congrArg (fun scene => Post.mk scene.setup.station scene.opIp) same

theorem Orderly.tame {act : Act α} (orderly : Orderly act) : Tame act :=
  orderly.coarser fun _ _ same => congrArg Setup.station same

namespace Stays

variable {allowed wider : Fault → Prop} {before middle after : Active}
  {outcome : EStateM.Result Stop Active α}

theorem follows (stays : Stays allowed before outcome) : before.Follows Machine.scene (final outcome) := by
  cases stays with
  | ok follows => exact follows
  | error follows => exact follows
  | here follows => exact follows

theorem mono (stays : Stays allowed before outcome) (implies : ∀ fault, allowed fault → wider fault) :
    Stays wider before outcome := by
  cases stays with
  | ok follows => exact .ok follows
  | @error stop _ follows within =>
    cases stop with
    | fault reason => exact .error follows (implies reason within)
    | outOfRange => exact .error follows trivial
  | here follows => exact .here follows

theorem offset {stop : Stop} {site : Nat} (stays : Stays (α := α) allowed before (.error stop after))
    (silent : ∀ fault, allowed fault → fault.offset? = none) (blamed : site ∈ stop.offset?) :
    site = before.machine.opIp := by
  cases stays with
  | error follows within =>
    cases stop with
    | fault reason => cases (silent reason within).symm.trans blamed
    | outOfRange => cases blamed
  | here follows => exact (Option.some.inj blamed).symm

theorem uncalled {fault : Fault}
    (stays : Stays (α := α) Fault.Uncalled before (.error (.fault fault) after)) : fault.Uncalled := by
  cases stays with
  | error _ within => exact within
  | here => exact ⟨rfl, rfl⟩

theorem later (first : before.Follows Machine.scene middle) (stays : Stays allowed middle outcome) :
    Stays allowed before outcome := by
  cases stays with
  | ok follows => exact .ok (first.trans follows)
  | error follows within => exact .error (first.trans follows) within
  | here follows =>
    have same : middle.machine.opIp = before.machine.opIp := congrArg Scene.opIp first.kept
    rw [same]
    exact .here (first.trans follows)

theorem recast {stop : Stop} (stays : Stays (α := α) allowed before (.error stop after)) :
    Stays (α := β) allowed before (.error stop after) := by
  cases stays with
  | error follows within => exact .error follows within
  | here follows => exact .here follows

end Stays

namespace Settles

variable {allowed wider : Fault → Prop}

theorem leaves {act : Act α} (settles : Settles allowed act) : Leaves Machine.scene act :=
  fun active => (settles active).follows

theorem orderly {act : Act α} (settles : Settles allowed act) : Orderly act := settles.leaves.orderly

theorem tame {act : Act α} (settles : Settles allowed act) : Tame act := settles.orderly.tame

theorem posted {act : Act α} (settles : Settles allowed act) : Leaves Machine.post act :=
  settles.leaves.posted

theorem fails {act : Act α} (settles : Settles allowed act) : FailsInPlace allowed act := by
  intro active stop after failed
  have stays := settles active
  rwa [failed] at stays

theorem compositional (allowed : Fault → Prop) :
    Compositional fun {α : Type} (act : Act α) => Settles allowed act where
  pure _ _ := .ok ⟨.refl _, rfl⟩
  bind {_ _ first rest} begins next active := by
    have begun := begins active
    simp only [Bind.bind, EStateM.bind]
    cases done : first active with
    | ok value middle =>
      rw [done] at begun
      exact .later begun.follows (next value middle)
    | error stop after =>
      rw [done] at begun
      exact begun.recast

theorem mono {act : Act α} (settles : Settles allowed act)
    (implies : ∀ fault, allowed fault → wider fault) : Settles wider act :=
  fun active => (settles active).mono implies

theorem pure (value : α) : Settles allowed (Pure.pure value : Act α) := (compositional allowed).pure value

theorem bind {first : Act α} {rest : α → Act β} (begins : Settles allowed first)
    (next : ∀ value, Settles allowed (rest value)) : Settles allowed (first >>= rest) :=
  (compositional allowed).bind begins next

theorem ite {condition : Prop} [Decidable condition] {yes no : Act α} (positive : Settles allowed yes)
    (negative : Settles allowed no) : Settles allowed (if condition then yes else no) := by
  split
  · exact positive
  · exact negative

theorem thenProceed {act : Act Unit} (settles : Settles allowed act) :
    Settles allowed (Act.thenProceed act) :=
  settles.bind fun _ => .pure _

theorem readStore {view : Store → α} {rest : α → Act β}
    (next : ∀ store, Settles allowed (rest (view store))) :
    Settles allowed (Act.readStore view >>= rest) :=
  fun active => next active.world.store active

end Settles

namespace FailsInPlace

variable {allowed wider : Fault → Prop}

/-- What comes last may call or return. -/
theorem after {first : Act α} {rest : α → Act β} (begins : Settles allowed first)
    (next : ∀ value, FailsInPlace allowed (rest value)) : FailsInPlace allowed (first >>= rest) := by
  intro active stop last failed
  have begun := begins active
  simp only [Bind.bind, EStateM.bind] at failed
  cases done : first active with
  | ok value middle =>
    rw [done] at begun failed
    exact .later begun.follows (next value middle stop last failed)
  | error reason middle =>
    rw [done] at begun failed
    cases failed
    exact begun.recast

theorem thenProceed {act : Act Unit} (fails : FailsInPlace allowed act) :
    FailsInPlace allowed (Act.thenProceed act) := by
  intro active stop last failed
  simp only [Act.thenProceed, Bind.bind, EStateM.bind] at failed
  cases done : act active with
  | ok value middle =>
    rw [done] at failed
    cases failed
  | error reason middle =>
    rw [done] at failed
    cases failed
    exact (fails active stop last done).recast

theorem mono {act : Act α} (fails : FailsInPlace allowed act)
    (implies : ∀ fault, allowed fault → wider fault) : FailsInPlace wider act :=
  fun active stop after failed => (fails active stop after failed).mono implies

end FailsInPlace

theorem Owns.uncounted {act : Act α} (owns : Owns act) : Settles Fault.Uncounted act :=
  owns.mono fun _ => Fault.uncounted_of_unconcerned

theorem Owns.uncalled {act : Act α} (owns : Owns act) : Settles Fault.Uncalled act :=
  owns.mono fun _ => Fault.uncalled_of_unconcerned

theorem FailsInPlace.uncounted {act : Act α} (fails : FailsInPlace Fault.Unconcerned act) :
    FailsInPlace Fault.Uncounted act :=
  fails.mono fun _ => Fault.uncounted_of_unconcerned

variable {allowed : Fault → Prop}

theorem owned_pure (value : α) : Owns (pure value) := .pure value

theorem settles_fail {fault : Fault} (may : allowed fault) : Settles allowed (fail fault : Act α) :=
  fun _ => .error ⟨.refl _, rfl⟩ may

theorem owned_fail {fault : Fault} (unconcerned : fault.Unconcerned) : Owns (fail fault : Act α) :=
  settles_fail unconcerned

theorem owned_failHere : Owns (failHere : Act α) := fun _ => .here ⟨.refl _, rfl⟩

theorem owned_readStore (view : Store → α) : Owns (readStore view) := fun _ => .ok ⟨.refl _, rfl⟩

theorem owned_readMachine (view : Machine → α) : Owns (readMachine view) := fun _ => .ok ⟨.refl _, rfl⟩

theorem owned_jumpTo (target : Nat) : Owns (jumpTo target) := fun _ => .ok ⟨.refl _, rfl⟩

theorem settles_onStore {action : StoreM α} (behaves : StoreM.Behaves allowed action) :
    Settles allowed (onStore action) := by
  intro ⟨world, machine⟩
  have follows := world.follows_compute behaves
  simp only [onStore]
  cases done : world.compute action with
  | mk result after =>
    rw [done] at follows
    cases result with
    | ok value => exact .ok ⟨follows, rfl⟩
    | error fault => exact .error ⟨follows, rfl⟩ (World.allowed_of_compute behaves done)

theorem owned_ofExcept {result : Except Fault α}
    (unconcerned : ∀ fault, result = .error fault → fault.Unconcerned) : Owns (ofExcept result) := by
  cases result with
  | ok value => exact owned_pure value
  | error fault => exact owned_fail (unconcerned fault rfl)

theorem owned_require (inside : Prop) [Decidable inside] : Owns (require inside) := by
  intro active
  unfold require
  split
  · exact .ok ⟨.refl _, rfl⟩
  · exact .error ⟨.refl _, rfl⟩ trivial

theorem owned_slot (index : Nat) : Owns (slot index) := by
  intro active
  unfold slot
  split
  · exact .ok ⟨.refl _, rfl⟩
  · exact .error ⟨.refl _, rfl⟩ trivial

theorem owned_slots (first last : Nat) : Owns (slots first last) := by
  intro active
  unfold slots
  split
  · exact .ok ⟨.refl _, rfl⟩
  · exact .error ⟨.refl _, rfl⟩ trivial

theorem owned_setSlot (index : Nat) (value : Value) : Owns (setSlot index value) := by
  intro ⟨world, machine⟩
  unfold setSlot
  dsimp only
  split
  · exact .ok ⟨.refl _, rfl⟩
  · exact .error ⟨.refl _, rfl⟩ trivial

theorem owned_push (value : Value) : Owns (push value) := by
  intro ⟨world, machine⟩
  unfold push
  dsimp only
  split
  · exact .ok ⟨.refl _, rfl⟩
  · exact .error ⟨.refl _, rfl⟩ rfl

theorem owned_pop : Owns pop := by
  intro ⟨world, machine⟩
  unfold pop
  dsimp only
  split
  · exact .error ⟨.refl _, rfl⟩ rfl
  · split
    · exact .error ⟨.refl _, rfl⟩ trivial
    · exact .ok ⟨.refl _, rfl⟩

theorem owned_top : Owns top := by
  intro active
  unfold top
  split
  · exact .error ⟨.refl _, rfl⟩ rfl
  · exact owned_slot _ active

theorem owned_setTop (value : Value) : Owns (setTop value) := by
  intro active
  unfold setTop
  split
  · exact .error ⟨.refl _, rfl⟩ trivial
  · exact owned_setSlot _ value active

theorem owned_dropTo (start : Nat) : Owns (dropTo start) := by
  intro ⟨world, machine⟩
  unfold dropTo
  dsimp only
  split
  · exact .ok ⟨.refl _, rfl⟩
  · exact .error ⟨.refl _, rfl⟩ trivial

theorem owned_popMany (count : Nat) : Owns (popMany count) := by
  refine (owned_readMachine _).bind fun sp => ?_
  refine (owned_fail rfl).ite ?_
  refine (owned_slots _ _).bind fun values => ?_
  exact (owned_dropTo _).bind fun _ => owned_pure values

theorem owned_readByte : Owns readByte := by
  intro ⟨world, machine⟩
  unfold readByte
  dsimp only
  split
  · exact .ok ⟨.refl _, rfl⟩
  · exact .here ⟨.refl _, rfl⟩

theorem owned_readPair : Owns readPair := by
  intro ⟨world, machine⟩
  unfold readPair
  dsimp only
  split
  · exact .ok ⟨.refl _, rfl⟩
  · exact .here ⟨.refl _, rfl⟩

theorem owned_readFlag : Owns readFlag := owned_readByte.bind fun _ => owned_pure _

theorem owned_frame : Owns frame := by
  intro active
  unfold frame
  split
  · exact .ok ⟨.refl _, rfl⟩
  · exact .error ⟨.refl _, rfl⟩ rfl

theorem owned_charge (limits : Limits) : Owns (charge limits) := by
  intro ⟨world, machine⟩
  unfold charge
  dsimp only
  split
  · exact .ok ⟨.refl _, rfl⟩
  · split
    · exact .error ⟨.refl _, rfl⟩ rfl
    · exact .ok ⟨.refl _, rfl⟩

theorem owned_pushCharged (limits : Limits) (value : Value) : Owns (pushCharged limits value) :=
  (owned_charge limits).bind fun _ => owned_push value

theorem leaves_changeUnless (stop? : Machine → Option Stop) {change : Machine → Machine}
    (stays : ∀ machine, view (change machine) = view machine) :
    Leaves view (changeUnless stop? change) := by
  refine .ofWorld fun world machine => ?_
  unfold changeUnless
  dsimp only
  split
  · exact ⟨rfl, rfl⟩
  · exact ⟨rfl, stays machine⟩

theorem posted_enter (limits : Limits) (function : Ref) (arguments : Array Value)
    (keywords : Table Value) (start : Nat) :
    Leaves Machine.post (enter limits function arguments keywords start) := by
  refine (owned_readStore _).posted.bind fun callee => ?_
  refine (settles_onStore (StoreM.uncounted_bindArguments _ _ _)).posted.bind fun parameters => ?_
  refine (owned_readMachine _).posted.bind fun reuses => ?_
  refine Leaves.ite ?_ ?_
  · unfold reenterFrame
    exact leaves_changeUnless _ fun _ => rfl
  · unfold enterFrame
    exact leaves_changeUnless _ fun _ => rfl

theorem owned_receiver (around : Surroundings) (hold : Hold) (value : Value) :
    Owns (receiver around hold value) := by
  intro active
  unfold receiver
  dsimp only
  split
  · exact .ok ⟨.refl _, rfl⟩
  · exact .error ⟨.refl _, rfl⟩ rfl

theorem owned_global (index : Nat) : Owns (global index) := by
  intro active
  unfold global
  split
  · exact .ok ⟨.refl _, rfl⟩
  · exact .here ⟨.refl _, rfl⟩

theorem owned_setGlobal (index : Nat) (value : Value) : Owns (setGlobal index value) := by
  intro ⟨⟨store, globals, aborting⟩, machine⟩
  unfold setGlobal
  dsimp only
  split
  · exact .ok ⟨⟨.refl store, .refl store, id⟩, rfl⟩
  · exact .here ⟨.refl _, rfl⟩

theorem owned_localSlot : Owns localSlot := by
  refine owned_readByte.bind fun index => ?_
  refine owned_frame.bind fun frame => ?_
  refine (owned_readMachine _).bind fun size => ?_
  exact (owned_pure _).ite (owned_fail rfl)

theorem owned_unboxed (value : Value) : Owns (unboxed value) := by
  unfold unboxed
  split
  · exact owned_readStore _
  · exact owned_pure _

/-- A missing free variable is blamed on an offset that need not be that of the instruction. -/
theorem settles_freeBox (index : Nat) : Settles Fault.Uncalled (freeBox index) := by
  refine owned_frame.uncalled.bind fun frame => ?_
  split
  · exact .pure _
  · exact settles_fail ⟨rfl, rfl⟩

theorem owned_walk (assignment : Assignment) (container : Value) (rest : List Value) :
    Owns (walk assignment container rest) := by
  induction rest generalizing container with
  | nil =>
    refine (settles_onStore (StoreM.harmless_indexSet _ _ _)).bind fun answer => ?_
    cases answer with
    | value value => exact owned_pure _
    | call property request => exact owned_pure _
  | cons selector rest ih =>
    refine (settles_onStore (StoreM.harmless_indexGet _ _)).bind fun answer => ?_
    cases answer with
    | value next => exact ih next
    | call property request => exact owned_pure _

theorem owned_assignPath (target : Value) (count : Nat) : Owns (assignPath target count) := by
  refine (owned_popMany count).bind fun selectors => ?_
  refine owned_pop.bind fun value => ?_
  split
  · exact owned_failHere
  · exact owned_walk _ _ _

theorem owned_popIterator : Owns popIterator := by
  refine owned_pop.bind fun value => ?_
  split
  · exact owned_pure _
  · exact (owned_readStore _).bind fun _ => owned_fail rfl

def usesFree : Opcode → Bool
  | .getFree | .setFree | .getFreeBox | .setFreePath => true
  | _ => false

theorem settles_free (program : Program) {op : Opcode} (free : usesFree op = true) :
    Settles Fault.Uncalled (access program op) := by
  cases op with
  | getFree =>
    refine owned_readByte.uncalled.bind fun index => (settles_freeBox index).bind fun box => ?_
    exact (owned_readStore _).uncalled.bind fun value => (owned_push value).uncalled.thenProceed
  | setFree =>
    refine owned_readByte.uncalled.bind fun index => owned_pop.uncalled.bind fun value => ?_
    refine (settles_freeBox index).bind fun box => Settles.thenProceed (Owns.uncalled ?_)
    exact settles_onStore (StoreM.harmless_write _ trivial)
  | getFreeBox =>
    refine owned_readByte.uncalled.bind fun index => (settles_freeBox index).bind fun box => ?_
    exact (owned_push _).uncalled.thenProceed
  | setFreePath =>
    refine owned_readByte.uncalled.bind fun index => owned_readByte.uncalled.bind fun count => ?_
    refine (settles_freeBox index).bind fun box => ?_
    exact (owned_readStore _).uncalled.bind fun target => (owned_assignPath target count).uncalled
  | _ => cases free

theorem owned_access (program : Program) {op : Opcode} (bound : usesFree op = false) :
    Owns (access program op) := by
  cases op with
  | constant =>
    refine owned_readPair.bind fun index => ?_
    split
    · exact (owned_push _).thenProceed
    · exact owned_failHere
  | pushUndefined => exact (owned_push _).thenProceed
  | pushDefault => exact (owned_push _).thenProceed
  | pushTrue => exact (owned_push _).thenProceed
  | pushFalse => exact (owned_push _).thenProceed
  | pop => exact owned_pop.bind fun _ => owned_pure _
  | getGlobal =>
    refine owned_readPair.bind fun index => ?_
    exact (owned_global index).bind fun value => (owned_push value).thenProceed
  | setGlobal =>
    refine owned_readPair.bind fun index => ?_
    exact owned_pop.bind fun value => (owned_setGlobal index value).thenProceed
  | setGlobalPath =>
    refine owned_readPair.bind fun index => ?_
    refine owned_readByte.bind fun count => ?_
    exact (owned_global index).bind fun target => owned_assignPath target count
  | getLocal =>
    refine owned_localSlot.bind fun index => ?_
    refine (owned_slot index).bind fun held => ?_
    exact (owned_unboxed held).bind fun value => (owned_push value).thenProceed
  | setLocal =>
    refine owned_localSlot.bind fun index => ?_
    refine owned_pop.bind fun value => ?_
    refine (owned_slot index).bind fun held => ?_
    split
    · exact Settles.thenProceed (settles_onStore (StoreM.harmless_write _ trivial))
    · exact (owned_setSlot index value).thenProceed
  | defineLocal =>
    refine owned_localSlot.bind fun index => ?_
    exact owned_pop.bind fun value => (owned_setSlot index value).thenProceed
  | setLocalPath =>
    refine owned_localSlot.bind fun index => ?_
    refine owned_readByte.bind fun count => ?_
    refine (owned_slot index).bind fun held => ?_
    exact (owned_unboxed held).bind fun target => owned_assignPath target count
  | getLocalBox =>
    refine owned_localSlot.bind fun index => ?_
    refine (owned_slot index).bind fun held => ?_
    split
    · exact (owned_push _).thenProceed
    · refine Settles.bind (settles_onStore (StoreM.harmless_alloc trivial)) fun box => ?_
      exact (owned_setSlot index _).bind fun _ => (owned_push _).thenProceed
  | getBuiltin =>
    refine owned_readByte.bind fun index => ?_
    split
    · exact (owned_push _).thenProceed
    · exact owned_failHere
  | getFree | setFree | getFreeBox | setFreePath => cases bound
  | _ => exact owned_fail rfl

theorem owned_operator (limits : Limits) (op : Opcode) : Owns (operator limits op) := by
  cases op with
  | binary =>
    refine owned_readByte.bind fun token => ?_
    split
    · exact owned_failHere
    · refine owned_pop.bind fun right => ?_
      refine owned_pop.bind fun left => ?_
      refine (settles_onStore (StoreM.harmless_binary _ _ _)).bind fun result => ?_
      exact (owned_pushCharged limits result).thenProceed
  | equal | notEqual =>
    refine owned_pop.bind fun right => ?_
    refine owned_pop.bind fun left => ?_
    exact (owned_readStore _).bind fun same => (owned_push _).thenProceed
  | logicalNot =>
    refine owned_pop.bind fun value => ?_
    exact (owned_readStore _).bind fun falsy => (owned_push _).thenProceed
  | complement | negate =>
    refine owned_pop.bind fun value => ?_
    refine .readStore fun store => ?_
    refine (owned_ofExcept fun _ failed => ?_).bind fun result => ?_
    · first | exact Value.concern?_complement failed | exact Value.concern?_negative failed
    · exact (owned_pushCharged limits result).thenProceed
  | _ => exact owned_fail rfl

theorem owned_control (op : Opcode) : Owns (control op) := by
  cases op with
  | jump => exact owned_readPair.bind fun target => (owned_jumpTo _).thenProceed
  | jumpFalsy =>
    refine owned_readPair.bind fun target => ?_
    refine owned_pop.bind fun value => ?_
    refine (owned_readStore _).bind fun falsy => ?_
    exact (owned_jumpTo _).thenProceed.ite (owned_pure _)
  | andJump =>
    refine owned_readPair.bind fun target => ?_
    refine owned_top.bind fun value => ?_
    refine (owned_readStore _).bind fun falsy => ?_
    exact (owned_jumpTo _).thenProceed.ite (owned_pop.bind fun _ => owned_pure _)
  | orJump =>
    refine owned_readPair.bind fun target => ?_
    refine owned_top.bind fun value => ?_
    refine (owned_readStore _).bind fun falsy => ?_
    exact (owned_pop.bind fun _ => owned_pure _).ite (owned_jumpTo _).thenProceed
  | suspend => exact owned_pure _
  | _ => exact owned_fail rfl

theorem owned_pushMade {make : StoreM Value} (harmless : StoreM.Harmless make) :
    Owns (onStore make >>= fun made => thenProceed (push made)) :=
  (settles_onStore harmless).bind fun made => (owned_push made).thenProceed

theorem owned_containers (limits : Limits) (op : Opcode) : Owns (containers limits op) := by
  cases op with
  | array =>
    refine owned_readPair.bind fun count => ?_
    refine (owned_popMany count).bind fun elements => ?_
    exact (owned_charge limits).bind fun _ => owned_pushMade (StoreM.harmless_newArray _ _)
  | map =>
    refine owned_readPair.bind fun count => ?_
    refine (owned_popMany count).bind fun elements => ?_
    refine (owned_readStore _).bind fun store => ?_
    refine (owned_ofExcept fun _ => concern?_pairUp).bind fun entries => ?_
    exact (owned_charge limits).bind fun _ => owned_pushMade (StoreM.harmless_newMap _ _)
  | error =>
    refine owned_pop.bind fun value => ?_
    exact (owned_charge limits).bind fun _ => owned_pushMade (StoreM.harmless_newError _)
  | freeze =>
    refine owned_pop.bind fun value => ?_
    split
    · exact (owned_pushCharged limits _).thenProceed
    · exact (owned_pushCharged limits _).thenProceed
    · exact (owned_push _).thenProceed
  | index =>
    refine owned_pop.bind fun index => ?_
    refine owned_pop.bind fun target => ?_
    refine (settles_onStore (StoreM.harmless_indexGet _ _)).bind fun answer => ?_
    cases answer with
    | value value => exact (owned_push value).thenProceed
    | call property request => exact owned_pure _
  | slice =>
    refine owned_pop.bind fun high => ?_
    refine owned_pop.bind fun low => ?_
    refine owned_pop.bind fun target => ?_
    refine (settles_onStore (StoreM.harmless_slice _ _ _)).bind fun part => ?_
    exact (owned_pushCharged limits part).thenProceed
  | _ => exact owned_fail rfl

theorem owned_closure (program : Program) : Owns (closure program) := by
  refine owned_readPair.bind fun index => ?_
  refine owned_readByte.bind fun count => ?_
  split
  · refine (owned_readStore _).bind fun callee => ?_
    refine (owned_popMany count).bind fun values => ?_
    refine (settles_onStore (StoreM.harmless_captured _)).bind fun free => ?_
    refine (owned_charge _).bind fun _ => ?_
    exact (settles_onStore (StoreM.harmless_newFunction _ _)).bind fun ref => owned_push _
  · exact (owned_readStore _).bind fun _ => owned_fail rfl
  · exact owned_failHere

theorem settles_refusal {name expected found : String} :
    Settles Fault.Uncounted (fail (.invalidArgumentType name expected found) : Act α) :=
  settles_fail ⟨⟨rfl, rfl⟩, nofun⟩

theorem settles_gatherKeywords (keywords : Table Value) (maps : List Value) :
    Settles Fault.Uncounted (gatherKeywords keywords maps) := by
  induction maps generalizing keywords with
  | nil => exact .pure _
  | cons value rest ih =>
    unfold gatherKeywords
    split
    · exact .pure _
    next same => cases same; exact (owned_readStore _).uncounted.bind fun _ => ih _
    next same => cases same; exact ih _
    next same => cases same; exact (owned_readStore _).uncounted.bind fun _ => settles_refusal

theorem settles_callSite : Settles Fault.Uncounted callSite := by
  refine owned_readByte.uncounted.bind fun count => ?_
  refine owned_readFlag.uncounted.bind fun spreads => ?_
  refine owned_readFlag.uncounted.bind fun keyed => ?_
  refine owned_readFlag.uncounted.bind fun catches => ?_
  have found (arity : Nat) : Owns (argumentStart arity) :=
    (owned_readMachine _).bind fun _ => (owned_fail rfl).ite (owned_pure _)
  refine (found _).uncounted.bind fun start => ?_
  refine (owned_slot _).uncounted.bind fun callee => ?_
  have callable : Owns (requireCallable callee) :=
    (owned_pure _).ite ((owned_readStore _).bind fun _ => owned_fail rfl)
  refine callable.uncounted.bind fun _ => ?_
  refine (owned_slots _ _).uncounted.bind fun positional => ?_
  have spread (value : Value) : Settles Fault.Uncounted (spread value) := by
    unfold Act.spread
    split
    · exact (owned_readStore _).uncounted
    · exact (owned_readStore _).uncounted.bind fun _ => settles_refusal
  have added : Settles Fault.Uncounted (spreadArguments spreads (start + count)) :=
    ((owned_slot _).uncounted.bind spread).ite (.pure _)
  refine added.bind fun more => ?_
  refine (owned_readMachine _).uncounted.bind fun sp => ?_
  refine (owned_slots _ _).uncounted.bind fun maps => ?_
  exact (settles_gatherKeywords _ _).bind fun keywords => .pure _

theorem owned_resolve (around : Surroundings) (site : CallSite) : Owns (resolve around site) := by
  unfold resolve
  split
  · exact owned_pure _
  · exact (owned_receiver _ _ _).bind fun _ => owned_pure _
  · exact (owned_receiver _ _ _).bind fun _ => owned_pure _
  · refine (owned_readStore _).bind fun store => ?_
    exact ((owned_slot _).bind fun _ => owned_pure _).ite (owned_pure _)

theorem posted_call (around : Surroundings) : Leaves Machine.post (call around) := by
  refine settles_callSite.posted.bind fun site => ?_
  refine (owned_resolve around site).posted.bind fun target => ?_
  cases target with
  | function ref arguments => exact (posted_enter _ _ _ _ _).thenProceed
  | native callee context fromStack => exact .pure _

theorem owned_returned : Owns returned :=
  owned_readFlag.bind fun _ => owned_pop.ite (owned_pure _)

theorem posted_returnFrom : Leaves Machine.post returnFrom := by
  refine owned_returned.posted.bind fun result => ?_
  refine (owned_readMachine _).posted.bind fun depth => ?_
  refine Leaves.ite (.pure _) (leaves_changeUnless _ fun machine => ?_).thenProceed
  unfold Machine.popFrame
  split
  · rfl
  · rfl

theorem owned_functions (around : Surroundings) {op : Opcode} (calls : op ≠ .call)
    (returns : op ≠ .ret) : Owns (functions around op) := by
  cases op with
  | call => exact absurd rfl calls
  | ret => exact absurd rfl returns
  | closure => exact (owned_closure around.program).thenProceed
  | callee => exact owned_frame.bind fun frame => (owned_push _).thenProceed
  | callArguments =>
    exact owned_frame.bind fun frame => owned_pushMade (StoreM.harmless_newArray _ _)
  | callKeywords =>
    exact owned_frame.bind fun frame => owned_pushMade (StoreM.harmless_newMap _ _)
  | _ => exact owned_fail rfl

theorem owned_iteration (limits : Limits) (op : Opcode) : Owns (iteration limits op) := by
  cases op with
  | iterate =>
    refine owned_pop.bind fun value => ?_
    refine (owned_readStore _).bind fun store => ?_
    refine (owned_ofExcept fun _ => Sequence.concern?_of).bind fun sequence => ?_
    refine (owned_charge limits).bind fun _ => ?_
    exact Settles.bind (settles_onStore (StoreM.harmless_alloc trivial)) fun ref =>
      (owned_push _).thenProceed
  | iteratorNext =>
    refine owned_popIterator.bind fun ref => ?_
    refine (settles_onStore (StoreM.harmless_iteratorNext ref)).bind fun more => ?_
    exact (owned_push _).thenProceed
  | iteratorKey | iteratorValue =>
    refine owned_popIterator.bind fun ref => ?_
    exact (owned_readStore _).bind fun value => (owned_push value).thenProceed
  | _ => exact owned_fail rfl

/-- Any instruction but a call, a return or one that uses a free variable. -/
theorem owned_execute (around : Surroundings) {op : Opcode} (calls : op ≠ .call)
    (returns : op ≠ .ret) (bound : usesFree op = false) : Owns (execute around op) := by
  rcases execute_cases around op with same | same | same | same | same | same <;> rw [same]
  · exact owned_access _ bound
  · exact owned_operator _ op
  · exact owned_control op
  · exact owned_containers _ op
  · exact owned_functions around calls returns
  · exact owned_iteration _ op

theorem execute_free (around : Surroundings) {op : Opcode} (free : usesFree op = true) :
    execute around op = access around.program op := by
  cases op with
  | getFree | setFree | getFreeBox | setFreePath => rfl
  | _ => cases free

theorem leaves_execute (around : Surroundings) {op : Opcode} (calls : op ≠ .call)
    (returns : op ≠ .ret) : Leaves Machine.scene (execute around op) := by
  cases free : usesFree op with
  | true =>
    rw [execute_free around free]
    exact (settles_free _ free).leaves
  | false => exact (owned_execute around calls returns free).leaves

theorem orderly_execute (around : Surroundings) {op : Opcode} (calls : op ≠ .call)
    (returns : op ≠ .ret) : Orderly (execute around op) :=
  (leaves_execute around calls returns).orderly

theorem posted_execute (around : Surroundings) (op : Opcode) :
    Leaves Machine.post (execute around op) := by
  by_cases calls : op = .call
  · subst calls
    exact posted_call around
  · by_cases returns : op = .ret
    · subst returns
      exact posted_returnFrom
    · exact (leaves_execute around calls returns).posted

theorem tame_execute (around : Surroundings) (op : Opcode) : Tame (execute around op) :=
  (posted_execute around op).coarser fun _ _ same => congrArg Post.station same

end Act

namespace Machine

variable {machine : Machine} {stop : Stop}

theorem within_restartStop {frameSize : Nat} {parameters : Array Value}
    (refused : machine.restartStop? frameSize parameters = some stop) : stop.Within Fault.Unconcerned := by
  unfold restartStop? at refused
  split at refused
  · cases refused
    rfl
  · dsimp only at refused
    split at refused
    · cases refused
      rfl
    · split at refused
      · cases refused
      · cases refused
        trivial

theorem within_pushStop {limits : Limits} {frame : Frame} {parameters : Array Value}
    (refused : machine.pushStop? limits frame parameters = some stop) : stop.Within Fault.Unconcerned := by
  unfold pushStop? at refused
  dsimp only at refused
  split at refused
  · cases refused
    rfl
  · split at refused
    · cases refused
      rfl
    · split at refused
      · cases refused
      · cases refused
        trivial

theorem within_popStop (refused : machine.popStop? = some stop) : stop.Within Fault.Unconcerned := by
  unfold popStop? at refused
  split at refused
  · split at refused
    · cases refused
    · cases refused
      trivial
  · cases refused
    rfl

end Machine

namespace Act

variable {α β γ : Type} {view : Machine → γ}

section Failing

variable {allowed : Fault → Prop}

theorem failsInPlace_changeUnless {stop? : Machine → Option Stop} {change : Machine → Machine}
    (blameless : ∀ machine stop, stop? machine = some stop → stop.Within allowed) :
    FailsInPlace allowed (changeUnless stop? change) := by
  intro ⟨world, machine⟩ stop after failed
  unfold changeUnless at failed
  dsimp only at failed
  split at failed
  next refused =>
    cases failed
    exact .error ⟨.refl _, rfl⟩ (blameless machine stop refused)
  · cases failed

theorem failsInPlace_call (around : Surroundings) : FailsInPlace Fault.Uncounted (call around) := by
  refine .after settles_callSite fun site => .after (owned_resolve around site).uncounted fun target => ?_
  cases target with
  | function ref arguments =>
    refine .thenProceed <| .after (owned_readStore _).uncounted fun callee => ?_
    refine .after (settles_onStore (StoreM.uncounted_bindArguments _ _ _)) fun parameters => ?_
    refine .after (owned_readMachine _).uncounted fun reuses => FailsInPlace.uncounted ?_
    split
    · unfold reenterFrame
      exact failsInPlace_changeUnless fun machine stop => Machine.within_restartStop
    · unfold enterFrame
      exact failsInPlace_changeUnless fun machine stop => Machine.within_pushStop
  | native callee context fromStack => exact (owned_pure _).fails.uncounted

theorem failsInPlace_returnFrom : FailsInPlace Fault.Unconcerned returnFrom := by
  refine .after owned_returned fun result => .after (owned_readMachine _) fun depth => ?_
  split
  · exact (owned_pure _).fails
  · exact .thenProceed <| failsInPlace_changeUnless fun machine stop => Machine.within_popStop

/-- An instruction that fails has neither called nor returned. -/
theorem scene_of_failed {around : Surroundings} {op : Opcode} {active after : Active} {stop : Stop}
    (failed : execute around op active = .error stop after) :
    after.machine.scene = active.machine.scene := by
  by_cases calls : op = .call
  · subst calls
    exact (failsInPlace_call around active stop after failed).follows.kept
  · by_cases returns : op = .ret
    · subst returns
      exact (failsInPlace_returnFrom active stop after failed).follows.kept
    · have left := leaves_execute around calls returns active
      rw [failed] at left
      exact left.kept

/-- An instruction that uses no free variable and fails blames no other instruction. -/
theorem failsInPlace_execute (around : Surroundings) {op : Opcode} (bound : usesFree op = false) :
    FailsInPlace Fault.Uncounted (execute around op) := by
  by_cases calls : op = .call
  · subst calls
    exact failsInPlace_call around
  · by_cases returns : op = .ret
    · subst returns
      exact failsInPlace_returnFrom.uncounted
    · exact (owned_execute around calls returns bound).fails.uncounted

end Failing

theorem observe_timely {world : World} {machine : Machine} (unasked : world.aborting = false)
    (timely : machine.expiry? world.store = none) : observe ⟨world, machine⟩ = .ok () ⟨world, machine⟩ := by
  simp only [observe, unasked, timely]
  rfl

theorem owned_observe : Owns observe := by
  intro ⟨world, machine⟩
  unfold observe
  dsimp only
  split
  · exact .error ⟨.refl _, rfl⟩ rfl
  · split
    next expired =>
      exact .error ⟨⟨.refl _, .refl _, fun _ => rfl⟩, rfl⟩ (Machine.concern?_expiry expired)
    · exact .ok ⟨.refl _, rfl⟩

theorem orderly_fetch : Orderly fetch := by
  refine .ofWorld fun world machine => ?_
  unfold fetch
  dsimp only
  split
  · exact ⟨rfl, rfl⟩
  · split
    · exact ⟨rfl, rfl⟩
    · exact ⟨rfl, rfl⟩

theorem tame_step (around : Surroundings) : Tame (step around) :=
  owned_observe.tame.bind fun _ => orderly_fetch.tame.bind fun op => tame_execute around op

/-- What is left of an instruction when native code has answered with a value. -/
theorem owned_resume (limits : Limits) (pending : Pending) (value : Value) :
    Owns (resume limits pending (.ok value)) := by
  refine (owned_pure value).bind fun value => ?_
  cases pending with
  | push held => exact (owned_push value).thenProceed
  | walk assignment rest held => exact owned_walk assignment value rest
  | finish held => exact owned_pure _
  | native start fromStack =>
    refine Settles.thenProceed ?_
    refine (owned_require _).bind fun _ => ?_
    refine (owned_dropTo _).bind fun _ => ?_
    exact (owned_charge limits).bind fun _ => (owned_setTop value).ite (owned_push value)
  | host => exact owned_pure _

theorem leaves_resume (limits : Limits) (pending : Pending) (result : Except Fault Value) :
    Leaves Machine.scene (resume limits pending result) := by
  cases result with
  | ok value => exact (owned_resume limits pending value).leaves
  | error fault => exact .ofWorld fun _ _ => ⟨rfl, rfl⟩

theorem orderly_resume (limits : Limits) (pending : Pending) (result : Except Fault Value) :
    Orderly (resume limits pending result) := (leaves_resume limits pending result).orderly

end Act

end ScriptMachine
