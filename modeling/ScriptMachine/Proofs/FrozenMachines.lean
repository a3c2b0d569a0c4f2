import ScriptMachine.Proofs.FrozenBuiltins

/-! Machines whose slots, frames and globals do not lead into the vault, and the acts from which
instructions are put together: they leave such a machine in the same condition. -/

namespace ScriptMachine

variable {vault : Vault}

structure Frame.Avoids (vault : Vault) (frame : Frame) : Prop where
  function : ∀ callee ∈ frame.function, vault.Free callee
  code : frame.code.Avoids vault
  free : ∀ box ∈ frame.free, vault.Free box
  arguments : ∀ value ∈ frame.arguments, value.Avoids vault
  keywords : frame.keywords.All (Value.Avoids vault)

structure Machine.Avoids (vault : Vault) (machine : Machine) : Prop where
  stack : ∀ value ∈ machine.stack, value.Avoids vault
  frames : ∀ frame ∈ machine.frames, frame.Avoids vault
  serves : ∀ function ∈ machine.serves, vault.Free function

structure Program.Avoids (vault : Vault) (program : Program) : Prop where
  main : vault.Free program.main
  constants : ∀ value ∈ program.constants, value.Avoids vault
  builtins : ∀ value ∈ program.builtins, value.Avoids vault

/-- What an instruction can use besides its machine does not lead into the vault. Values that the
embedding program holds may do so, if they keep nothing alive that is lost. -/
structure Surroundings.Respects (vault : Vault) (around : Surroundings) : Prop where
  program : around.program.Avoids vault
  outside : ∀ other ∈ around.outside (), vault.Live other

/-- The store shelters the vault, and no global leads into it. -/
structure World.Shelters (vault : Vault) (world : World) : Prop where
  store : world.store.Shelters vault
  globals : ∀ value ∈ world.globals, value.Avoids vault

structure Active.Shelters (vault : Vault) (active : Active) : Prop where
  world : active.world.Shelters vault
  machine : active.machine.Avoids vault

/-- Values that keep nothing alive that is lost. -/
def Vault.AllLive (vault : Vault) (values : List Value) : Prop :=
  ∀ value ∈ values, ∀ other ∈ value.refs, vault.Live other

/-- A host program that makes no handle of its own: it uses the values it was given, those it reads
off the store and those it is answered with. While it waits it may hold others, if they keep nothing alive
that is lost. -/
def HostProgram.Respects (vault : Vault) : HostProgram → Prop
  | .reply result => ∀ value, result = .ok value → value.Avoids vault
  | .inspect next => ∀ store : Store, store.Shelters vault → (next store).Respects vault
  | .newArray elements next =>
    (∀ value ∈ elements, value.Avoids vault) ∧
      ∀ value : Value, value.Avoids vault → (next value).Respects vault
  | .newMap entries next =>
    entries.All (Value.Avoids vault) ∧
      ∀ value : Value, value.Avoids vault → (next value).Respects vault
  | .newError payload next =>
    payload.Avoids vault ∧ ∀ value : Value, value.Avoids vault → (next value).Respects vault
  | .call request held next =>
    request.Avoids vault ∧ vault.AllLive held ∧ ∀ result : Except Fault Value,
      (∀ value, result = .ok value → value.Avoids vault) → (next result).Respects vault
  | .abort next => next.Respects vault

def Task.Avoids (vault : Vault) : Task → Prop
  | .call request => request.Avoids vault
  | .invoke callee context => callee.Avoids vault ∧ context.Avoids vault
  | .routine context program => context.Avoids vault ∧ program.Respects vault
  | .answer result => ∀ value, result = .ok value → value.Avoids vault

/-- What an instruction leaves to native code, and holds meanwhile, does not lead into the vault. -/
def Next.Avoids (vault : Vault) : Next → Prop
  | .await task pending => task.Avoids vault ∧ ∀ value ∈ pending.values, value.Avoids vault
  | _ => True

theorem Value.avoids_set {values : Array Value} {new : Value}
    (avoids : ∀ value ∈ values, value.Avoids vault) (index : Nat) (known : new.Avoids vault) :
    ∀ value ∈ values.setIfInBounds index new, value.Avoids vault := by
  intro value member
  rcases Array.mem_or_eq_of_mem_setIfInBounds member with old | rfl
  · exact avoids value old
  · exact known

theorem Value.avoids_held {lives : Ref → Bool} {id : Nat} {hold : Hold} {callee receiver value : Value}
    (alive : ∀ other, lives other = true → vault.Live other)
    (avoids : (Value.bound id hold callee receiver).Avoids vault)
    (held : heldReceiver? lives hold receiver = some value) : value.Avoids vault := by
  unfold heldReceiver? at held
  split at held
  next other =>
    split at held
    next living =>
      cases held
      rcases avoids.2 with known | ⟨_, _, same, apart⟩
      · exact known
      · cases same
        exact ⟨apart, alive other living⟩
    · cases held
  next strong =>
    cases held
    rcases avoids.2 with known | ⟨rfl, other, rfl, _⟩
    · exact known
    · cases strong other rfl rfl

namespace Machine

variable {stack : Array Value}

theorem avoids_fillSlots {values : List Value} (avoids : ∀ value ∈ stack, value.Avoids vault)
    (index : Nat) (known : ∀ value ∈ values, value.Avoids vault) :
    ∀ value ∈ fillSlots stack index values, value.Avoids vault := by
  induction values generalizing stack index with
  | nil => exact avoids
  | cons value rest ih =>
    apply ih (Value.avoids_set avoids index (known value List.mem_cons_self))
    exact fun later member => known later (List.mem_cons_of_mem _ member)

theorem avoids_clearSlots (avoids : ∀ value ∈ stack, value.Avoids vault) (index count : Nat) :
    ∀ value ∈ clearSlots stack index count, value.Avoids vault := by
  induction count generalizing stack index with
  | zero => exact avoids
  | succ count ih => exact ih (Value.avoids_set avoids index Value.avoids_undefined) (index + 1)

theorem avoids_loadSlots {parameters : Array Value} (avoids : ∀ value ∈ stack, value.Avoids vault)
    (base stop : Nat) (known : ∀ value ∈ parameters, value.Avoids vault) :
    ∀ value ∈ loadSlots stack base stop parameters, value.Avoids vault := by
  apply avoids_clearSlots
  apply avoids_fillSlots avoids
  exact fun value member => known value (Array.mem_toList_iff.mp member)

end Machine

theorem CallStack.forall_changeTop {holds : Frame → Prop} {change : Frame → Frame} {calls : CallStack}
    (all : ∀ frame ∈ calls.frames, holds frame) (keeps : ∀ frame, holds frame → holds (change frame)) :
    ∀ frame ∈ (calls.changeTop change).frames, holds frame := by
  obtain ⟨frames, depth, counted⟩ := calls
  cases frames with
  | nil => exact all
  | cons first callers =>
    have both := List.forall_mem_cons.mp all
    exact List.forall_mem_cons.mpr ⟨keeps first both.1, both.2⟩

theorem Frame.Avoids.values {frame : Frame} (avoids : frame.Avoids vault) :
    ∀ value ∈ frame.values, value.Avoids vault := by
  intro value member
  simp only [Frame.values, List.mem_append, Option.mem_toList,
    Option.map_eq_some_iff, Array.mem_toList_iff] at member
  rcases member with (⟨callee, running, rfl⟩ | argument) | keyword
  · exact avoids.function callee running
  · exact avoids.arguments value argument
  · exact avoids.keywords.values value keyword

namespace Machine.Avoids

variable {machine : Machine} {parameters : Array Value}

theorem live (avoids : machine.Avoids vault) : ∀ other ∈ machine.refs, vault.Live other := by
  intro other member
  rcases List.mem_append.mp member with slot | called
  · exact Value.live_refsOf avoids.stack other slot
  · apply Value.live_flatMap _ other called
    intro value inside
    obtain ⟨frame, running, held⟩ := List.mem_flatMap.mp inside
    exact (avoids.frames frame running).values value held

theorem restartFrame (avoids : machine.Avoids vault) (frameSize : Nat) {arguments : Array Value}
    {keywords : Table Value} (bound : ∀ value ∈ parameters, value.Avoids vault)
    (given : ∀ value ∈ arguments, value.Avoids vault) (keyed : keywords.All (Value.Avoids vault)) :
    (machine.restartFrame frameSize parameters arguments keywords).Avoids vault := by
  refine ⟨avoids_loadSlots avoids.stack _ _ bound, ?_, avoids.serves⟩
  apply CallStack.forall_changeTop avoids.frames
  intro frame known
  exact ⟨known.function, known.code, known.free, given, keyed⟩

theorem pushFrame (avoids : machine.Avoids vault) {frame : Frame} (entered : frame.Avoids vault)
    (bound : ∀ value ∈ parameters, value.Avoids vault) :
    (machine.pushFrame frame parameters).Avoids vault := by
  have callers : ∀ caller ∈ (machine.calls.changeTop fun caller =>
      { caller with resume := machine.ip }).frames, caller.Avoids vault := by
    apply CallStack.forall_changeTop avoids.frames
    intro caller known
    exact ⟨known.function, known.code, known.free, known.arguments, known.keywords⟩
  exact ⟨avoids_loadSlots avoids.stack _ _ bound, List.forall_mem_cons.mpr ⟨entered, callers⟩,
    avoids.serves⟩

theorem popFrame (avoids : machine.Avoids vault) {result : Value} (known : result.Avoids vault) :
    (machine.popFrame result).Avoids vault := by
  unfold Machine.popFrame
  split
  · have cleared := avoids_clearSlots avoids.stack
    exact ⟨Value.avoids_set (cleared _ _) _ known,
      fun frame member => avoids.frames frame (List.mem_of_mem_tail member), avoids.serves⟩
  · exact avoids

end Machine.Avoids

namespace Act

variable {α β : Type} {middle : α → Prop} {post : β → Prop}

/-- An act that keeps out of the vault, and what is known of its result. -/
abbrev Guards (vault : Vault) (act : Act α) (post : α → Prop) : Prop :=
  Maintains (Active.Shelters vault) act post

section Basics

theorem guards_fail (fault : Fault) : Guards vault (fail fault) post := fun _ kept => kept

theorem guards_failHere : Guards vault failHere post := fun _ kept => kept

theorem guards_onStore {action : StoreM β} (guards : StoreM.Guards vault action post) :
    Guards vault (onStore action) post := by
  intro active kept
  have done := guards active.world.store kept.world.store
  simp only [onStore, World.compute]
  cases ended : action active.world.store with
  | ok result store =>
    rw [ended] at done
    exact ⟨⟨⟨done.1, kept.world.globals⟩, kept.machine⟩, done.2⟩
  | error fault store =>
    rw [ended] at done
    exact ⟨⟨done, kept.world.globals⟩, kept.machine⟩

theorem guards_onMachine {change : Machine → Machine}
    (keeps : ∀ machine : Machine, machine.Avoids vault → (change machine).Avoids vault) :
    Guards vault (onMachine change) fun _ => True :=
  fun active kept => ⟨⟨kept.world, keeps active.machine kept.machine⟩, trivial⟩

theorem readStore_bind {view : Store → α} {rest : α → Act β}
    (next : ∀ store : Store, store.Shelters vault → Guards vault (rest (view store)) post) :
    Guards vault (readStore view >>= rest) post :=
  fun active kept => next active.world.store kept.world.store active kept

theorem readMachine_bind {view : Machine → α} {rest : α → Act β}
    (next : ∀ machine : Machine, machine.Avoids vault → Guards vault (rest (view machine)) post) :
    Guards vault (readMachine view >>= rest) post :=
  fun active kept => next active.machine kept.machine active kept

theorem guards_ofExcept {result : Except Fault β} (known : ∀ value, result = .ok value → post value) :
    Guards vault (ofExcept result) post := by
  cases result with
  | ok value => exact .pure (known value rfl)
  | error fault => exact guards_fail fault

theorem guards_require (inside : Prop) [Decidable inside] :
    Guards vault (require inside) fun _ => True := by
  intro active kept
  unfold require
  split
  · exact ⟨kept, trivial⟩
  · exact kept

theorem guards_slot (index : Nat) : Guards vault (slot index) (Value.Avoids vault) := by
  intro active kept
  unfold slot
  split
  next value found => exact ⟨kept, kept.machine.stack value (Array.mem_of_getElem? found)⟩
  · exact kept

theorem guards_slots (first last : Nat) :
    Guards vault (slots first last) fun values => ∀ value ∈ values, value.Avoids vault := by
  intro active kept
  unfold slots
  split
  · exact ⟨kept, Value.avoids_extract kept.machine.stack first last⟩
  · exact kept

theorem guards_setSlot (index : Nat) {value : Value} (avoids : value.Avoids vault) :
    Guards vault (setSlot index value) fun _ => True := by
  intro ⟨world, machine⟩ kept
  unfold setSlot
  dsimp only
  split
  · exact ⟨⟨kept.world, Value.avoids_set kept.machine.stack index avoids, kept.machine.frames,
      kept.machine.serves⟩, trivial⟩
  · exact kept

theorem guards_push {value : Value} (avoids : value.Avoids vault) :
    Guards vault (push value) fun _ => True := by
  intro ⟨world, machine⟩ kept
  unfold push
  dsimp only
  split
  · exact ⟨⟨kept.world, Value.avoids_set kept.machine.stack _ avoids, kept.machine.frames,
      kept.machine.serves⟩, trivial⟩
  · exact kept

theorem guards_pop : Guards vault pop (Value.Avoids vault) := by
  intro ⟨world, machine⟩ kept
  unfold pop
  dsimp only
  split
  · exact kept
  · split
    · exact kept
    next value found =>
      exact ⟨⟨kept.world, Value.avoids_set kept.machine.stack _ Value.avoids_undefined,
        kept.machine.frames, kept.machine.serves⟩,
        kept.machine.stack value (Array.mem_of_getElem? found)⟩

theorem guards_top : Guards vault top (Value.Avoids vault) := by
  intro active kept
  unfold top
  split
  · exact kept
  · exact guards_slot _ active kept

theorem guards_setTop {value : Value} (avoids : value.Avoids vault) :
    Guards vault (setTop value) fun _ => True := by
  intro active kept
  unfold setTop
  split
  · exact kept
  · exact guards_setSlot _ avoids active kept

theorem guards_dropTo (start : Nat) : Guards vault (dropTo start) fun _ => True := by
  intro ⟨world, machine⟩ kept
  unfold dropTo
  dsimp only
  split
  · exact ⟨⟨kept.world, Machine.avoids_clearSlots kept.machine.stack _ _, kept.machine.frames,
      kept.machine.serves⟩, trivial⟩
  · exact kept

theorem guards_popMany (count : Nat) :
    Guards vault (popMany count) fun values => ∀ value ∈ values, value.Avoids vault := by
  apply readMachine_bind
  intro machine _
  apply Maintains.ite
  · intro _
    exact guards_fail _
  · intro _
    apply (guards_slots _ _).bind
    intro values known
    apply (guards_dropTo _).bind
    intro _ _
    exact .pure known

theorem guards_readByte : Guards vault readByte fun _ => True := by
  intro ⟨world, machine⟩ kept
  unfold readByte
  dsimp only
  split
  · exact ⟨⟨kept.world, kept.machine.stack, kept.machine.frames, kept.machine.serves⟩, trivial⟩
  · exact kept

theorem guards_readPair : Guards vault readPair fun _ => True := by
  intro ⟨world, machine⟩ kept
  unfold readPair
  dsimp only
  split
  · exact ⟨⟨kept.world, kept.machine.stack, kept.machine.frames, kept.machine.serves⟩, trivial⟩
  · exact kept

theorem guards_readFlag : Guards vault readFlag fun _ => True :=
  guards_readByte.bind fun _ _ => .pure trivial

theorem guards_jumpTo (target : Nat) : Guards vault (jumpTo target) fun _ => True :=
  guards_onMachine fun _ avoids => ⟨avoids.stack, avoids.frames, avoids.serves⟩

theorem guards_frame : Guards vault frame (Frame.Avoids vault) := by
  intro active kept
  unfold frame
  split
  next first callers named =>
    exact ⟨kept, kept.machine.frames first (named ▸ List.mem_cons_self)⟩
  · exact kept

theorem guards_charge (limits : Limits) : Guards vault (charge limits) fun _ => True := by
  intro ⟨world, machine⟩ kept
  unfold charge
  dsimp only
  split
  · exact ⟨kept, trivial⟩
  · have charged : Active.Shelters vault
        ⟨world, { machine with budget := machine.budget - 1 }⟩ :=
      ⟨kept.world, kept.machine.stack, kept.machine.frames, kept.machine.serves⟩
    split
    · exact charged
    · exact ⟨charged, trivial⟩

theorem guards_pushCharged (limits : Limits) {value : Value} (avoids : value.Avoids vault) :
    Guards vault (pushCharged limits value) fun _ => True :=
  (guards_charge limits).bind fun _ _ => guards_push avoids

theorem guards_receiver {around : Surroundings} (respects : around.Respects vault) {id : Nat}
    {hold : Hold} {callee value : Value} (avoids : (Value.bound id hold callee value).Avoids vault) :
    Guards vault (receiver around hold value) (Value.Avoids vault) := by
  intro active kept
  have roots : ∀ root ∈ active.machine.nearRefs ++
      (active.world.refs ++ active.machine.refs ++ around.outside ()), vault.Live root := by
    intro root member
    simp only [List.mem_append] at member
    rcases member with near | (global | held) | outside
    · exact kept.machine.live root (Machine.mem_refs_of_mem_nearRefs near)
    · exact Value.live_refsOf kept.world.globals root global
    · exact kept.machine.live root held
    · exact respects.outside root outside
  unfold receiver
  dsimp only
  split
  next found =>
    refine ⟨kept, Value.avoids_held ?_ avoids found⟩
    intro other living
    exact kept.world.store.live_of_keeps roots living
  · exact kept

theorem guards_global (index : Nat) : Guards vault (global index) (Value.Avoids vault) := by
  intro active kept
  unfold global
  split
  next value found => exact ⟨kept, kept.world.globals value (Array.mem_of_getElem? found)⟩
  · exact kept

theorem guards_setGlobal (index : Nat) {value : Value} (avoids : value.Avoids vault) :
    Guards vault (setGlobal index value) fun _ => True := by
  intro ⟨⟨store, globals, aborting⟩, machine⟩ kept
  unfold setGlobal
  dsimp only
  split
  · exact ⟨⟨⟨kept.world.store, Value.avoids_set kept.world.globals index avoids⟩, kept.machine⟩, trivial⟩
  · exact kept

theorem guards_localSlot : Guards vault localSlot fun _ => True := by
  apply guards_readByte.bind
  intro index _
  apply guards_frame.bind
  intro frame _
  apply readMachine_bind
  intro machine _
  exact Maintains.ite (fun _ => .pure trivial) fun _ => guards_fail _

theorem guards_unboxed {value : Value} (avoids : value.Avoids vault) :
    Guards vault (unboxed value) (Value.Avoids vault) := by
  unfold unboxed
  split
  next box =>
    have free : vault.Free box := avoids
    exact fun active kept => ⟨kept, kept.world.store.boxed free.live⟩
  · exact .pure avoids

theorem guards_freeBox (index : Nat) : Guards vault (freeBox index) vault.Free := by
  apply guards_frame.bind
  intro frame known
  split
  next box found => exact .pure (known.free box (Array.mem_of_getElem? found))
  · exact guards_fail _

end Basics

end Act

end ScriptMachine
