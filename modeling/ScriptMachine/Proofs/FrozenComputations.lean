import ScriptMachine.Proofs.FrozenMembers
import ScriptMachine.Iteration
import ScriptMachine.Index
import ScriptMachine.Value.Arithmetic
import ScriptMachine.Value.Slice

/-! Indexing, iterators, operators and slices keep out of a vault: given values that do not lead into it,
they leave it alone and have results of the same kind. -/

namespace ScriptMachine

variable {vault : Vault}

structure Request.Avoids (vault : Vault) (request : Request) : Prop where
  callee : request.callee.Avoids vault
  receiver : ∀ value ∈ request.receiver, value.Avoids vault
  arguments : ∀ value ∈ request.arguments, value.Avoids vault
  keywords : request.keywords.All (Value.Avoids vault)

def Answer.Avoids (vault : Vault) : Answer → Prop
  | .value held => held.Avoids vault
  | .call property request => vault.Free property ∧ request.Avoids vault

namespace StoreM

section Indexing

theorem guards_intIndex (index : Value) : Guards vault (intIndex index) fun _ => True := by
  unfold intIndex
  split
  · exact .pure trivial
  · exact Maintains.get.bind fun _ _ => .throw _

theorem guards_textIndex (index : Value) : Guards vault (textIndex index) fun _ => True := by
  unfold textIndex
  split
  · exact .pure trivial
  · exact Maintains.get.bind fun _ _ => .throw _

theorem guards_mapIndex (index : Value) : Guards vault (mapIndex index) fun _ => True := by
  apply Maintains.get.bind
  intro store _
  split
  · exact .pure trivial
  · exact Maintains.get.bind fun _ _ => .throw _

theorem guards_objectGet {other : Ref} (free : vault.Free other) (name : String) :
    Guards vault (objectGet other name) (Answer.Avoids vault) := by
  apply Maintains.get.bind
  intro store kept
  have object := kept.object free
  have type := kept.type object.type
  have properties := kept.members type.properties.live
  apply Maintains.ite
  · intro _
    exact .pure object.values
  intro _
  apply Maintains.ite
  · intro _
    exact .pure object.type
  intro _
  split
  next property found =>
    split
    next getter given =>
      have declared := properties name property found
      apply Maintains.pure
      have called : Request.Avoids vault { callee := getter, receiver := some (.object other) } :=
        ⟨(kept.property declared.live).getter getter given, fun _ member => by cases member; exact free,
          by simp, .empty⟩
      exact ⟨declared, called⟩
    · exact .pure trivial
  · split
    next value found => exact .pure (kept.entries object.values.live name value found)
    next bound _ found => exact .pure (object.methods name bound found)
    next method _ _ found =>
      have declared := kept.members type.methods.live name method found
      apply (guards_bind .weak (show (Value.object other).Avoids vault from free)
        (kept.entry declared.live).value).bind
      intro bound known
      apply Maintains.get.bind
      intro later holds
      have object := holds.object free
      have remembered : Object.Avoids vault { later.object other with
          methods := (later.object other).methods.insert name bound } :=
        ⟨object.type, object.values, object.methods.insert name known⟩
      apply (guards_write free (.object remembered)).bind
      intro _ _
      exact .pure known
    · exact .pure trivial

theorem guards_objectSet {other : Ref} (free : vault.Free other) (name : String) {value : Value}
    (avoids : value.Avoids vault) : Guards vault (objectSet other name value) (Answer.Avoids vault) := by
  apply Maintains.get.bind
  intro store kept
  have object := kept.object free
  have properties := kept.members (kept.type object.type).properties.live
  dsimp only
  split
  next property found =>
    split
    next setter given =>
      have declared := properties name property found
      apply Maintains.pure
      have called : Request.Avoids vault
          { callee := setter, receiver := some (.object other), arguments := #[value] } :=
        ⟨(kept.property declared.live).setter setter given, fun _ member => by cases member; exact free,
          by simpa using avoids, .empty⟩
      exact ⟨declared, called⟩
    · exact .throw _
  · have entries := kept.entries object.values.live
    apply (guards_write object.values (.map (entries.insert name avoids))).bind
    intro _ _
    exact .pure trivial

theorem guards_indexGet {target : Value} (avoids : target.Avoids vault) (index : Value) :
    Guards vault (indexGet target index) (Answer.Avoids vault) := by
  cases target with
  | undefined | useDefault => exact .pure trivial
  | array handle ref =>
    apply (guards_intIndex index).bind
    intro i _
    apply Maintains.get.bind
    intro store kept
    apply Maintains.pure
    apply Value.avoids_found
    intro position _
    exact kept.elements avoids.array_live _ (Array.getElem_mem _)
  | string | bytes =>
    apply (guards_intIndex index).bind
    intro i _
    exact .pure (Value.avoids_found fun _ _ => trivial)
  | map handle ref =>
    apply (guards_mapIndex index).bind
    intro key _
    apply Maintains.get.bind
    intro store kept
    exact .pure ((kept.entries avoids.map_live).getD key Value.avoids_undefined)
  | error => exact Maintains.ite (fun _ => .pure avoids) fun _ => .throw _
  | object => exact (guards_textIndex index).bind fun key _ => guards_objectGet avoids key
  | type =>
    apply (guards_textIndex index).bind
    intro key _
    exact (guards_typeGet avoids key).map Answer.value fun _ known => known
  | member kind ref =>
    have free : vault.Free ref := avoids
    apply (guards_textIndex index).bind
    intro key _
    apply Maintains.ite
    · intro _
      exact (guards_newMapper avoids).map Answer.value fun _ known => known
    · intro _
      exact (guards_memberGet kind free.live key).map Answer.value fun _ known => known
  | members kind ref =>
    have free : vault.Free ref := avoids
    apply (guards_textIndex index).bind
    intro key _
    apply Maintains.ite
    · intro _
      exact (guards_newMapper avoids).map Answer.value fun _ known => known
    · intro _
      apply Maintains.get.bind
      intro store kept
      exact .pure (Value.avoids_found fun place found => kept.members free.live key place found)
  | _ => exact Maintains.get.bind fun _ _ => .throw _

theorem guards_reloadMapping {value : Value} (avoids : value.Avoids vault) :
    Guards vault (reloadMapping value) (Table.All (Value.Avoids vault)) := by
  apply (guards_mapping true avoids).bind
  intro mapping known
  split
  next table => exact .pure (known table rfl)
  · exact Maintains.get.bind fun _ _ => .throw _

theorem guards_indexSet {target value : Value} (aimed : target.Avoids vault) (index : Value)
    (avoids : value.Avoids vault) :
    Guards vault (indexSet target index value) (Answer.Avoids vault) := by
  have refused : Guards vault (do throw (.notIndexAssignable (target.kind (← get))))
      (Answer.Avoids vault) := Maintains.get.bind fun _ _ => .throw _
  cases target with
  | array handle ref =>
    cases handle with
    | frozen => exact refused
    | writable =>
      apply (guards_intIndex index).bind
      intro i _
      apply Maintains.get.bind
      intro store kept
      split
      next position _ =>
        apply Maintains.bind (guards_changeElements aimed ?change)
        · intro _ _
          exact .pure trivial
        · intro elements known held member
          rcases Array.mem_or_eq_of_mem_setIfInBounds member with old | rfl
          · exact known held old
          · exact avoids
      · exact .throw _
  | map handle ref =>
    cases handle with
    | frozen => exact refused
    | writable =>
      apply (guards_mapIndex index).bind
      intro key _
      apply Maintains.get.bind
      intro store kept
      apply (guards_write aimed (.map ((kept.entries aimed.map_live).insert key avoids))).bind
      intro _ _
      exact .pure trivial
  | object => exact (guards_textIndex index).bind fun key _ => guards_objectSet aimed key avoids
  | type =>
    apply (guards_textIndex index).bind
    intro key _
    apply (guards_typeSet aimed key avoids).bind
    intro _ _
    exact .pure trivial
  | member kind ref =>
    apply (guards_textIndex index).bind
    intro key _
    apply Maintains.ite
    · intro _
      apply (guards_reloadMapping avoids).bind
      intro mapping known
      exact (guards_loadMember kind aimed known).bind fun _ _ => .pure trivial
    · intro _
      exact (guards_memberSet kind aimed key avoids).bind fun _ _ => .pure trivial
  | members kind ref =>
    apply (guards_textIndex index).bind
    intro key _
    apply Maintains.ite
    · intro _
      apply (guards_reloadMapping avoids).bind
      intro mapping known
      exact (guards_declareAll (some ref) kind aimed known.entries).bind fun _ _ => .pure trivial
    · intro _
      exact (guards_declare none kind aimed key avoids).bind fun _ _ => .pure trivial
  | _ => exact refused

theorem guards_deleteFromMap {other : Ref} (free : vault.Free other) (keys : List Value) :
    Guards vault (deleteFromMap other keys) fun _ => True := by
  induction keys with
  | nil => exact .pure trivial
  | cons index rest ih =>
    apply Maintains.get.bind
    intro store _
    apply Maintains.ite
    · intro _
      exact .throw _
    · intro _
      apply (guards_mapIndex index).bind
      intro key _
      apply Maintains.get.bind
      intro later kept
      apply (guards_write free (.map ((kept.entries free.live).erase key))).bind
      intro _ _
      exact ih

theorem guards_deleteFromMembers {other : Ref} (free : vault.Free other) (keys : List Value) :
    Guards vault (deleteFromMembers other keys) fun _ => True := by
  induction keys with
  | nil => exact .pure trivial
  | cons index rest ih =>
    apply (guards_textIndex index).bind
    intro key _
    apply (guards_eraseMember free key).bind
    intro _ _
    exact ih

theorem guards_indexDelete {target : Value} (aimed : target.Avoids vault) (keys : List Value) :
    Guards vault (indexDelete target keys) fun _ => True := by
  unfold indexDelete
  split
  · exact guards_deleteFromMap aimed keys
  · exact guards_deleteFromMembers aimed keys
  · exact Maintains.get.bind fun _ _ => .throw _

end Indexing

end StoreM

section Iterators

variable {store : Store}

theorem Store.Shelters.sequence (kept : store.Shelters vault) {value : Value} {sequence : Sequence}
    (avoids : value.Avoids vault) (made : Sequence.of store value = .ok sequence) :
    ∀ storage ∈ sequence.refs, vault.Live storage := by
  cases value with
  | array handle other =>
    cases made
    simpa [Sequence.refs] using avoids.array_live
  | map handle other =>
    cases made
    simpa [Sequence.refs] using avoids.map_live
  | object other =>
    cases made
    simpa [Sequence.refs] using (kept.object avoids).values.live
  | _ => cases made <;> exact fun _ member => nomatch member

theorem Store.Shelters.valueAt (kept : store.Shelters vault) (sequence : Sequence)
    (live : ∀ storage ∈ sequence.refs, vault.Live storage) (position : Fin sequence.count) :
    (sequence.valueAt store position).Avoids vault := by
  cases sequence with
  | elements storage count =>
    have elements := kept.elements (live storage List.mem_cons_self)
    apply Value.avoids_getD
    intro value found
    exact elements value (Array.mem_of_getElem? found)
  | entries storage keys =>
    exact (kept.entries (live storage List.mem_cons_self)).getD _ Value.avoids_undefined
  | _ => trivial

theorem Store.Shelters.cursorValue (kept : store.Shelters vault) (cursor : Cursor)
    (live : ∀ storage ∈ cursor.sequence.refs, vault.Live storage) :
    (cursor.value store).Avoids vault := by
  unfold Cursor.value
  split
  · exact kept.valueAt _ live _
  · trivial

theorem Cursor.avoids_key (cursor : Cursor) : cursor.key.Avoids vault := by
  unfold Cursor.key
  split
  next position _ =>
    unfold Sequence.keyAt
    split <;> trivial
  · trivial

theorem StoreM.guards_iteratorNext {other : Ref} (free : vault.Free other) :
    Guards vault (iteratorNext other) fun _ => True := by
  apply Maintains.get.bind
  intro store kept
  have same (cursor : Cursor) : cursor.advance.sequence = cursor.sequence := by
    unfold Cursor.advance
    split <;> rfl
  have live := kept.cursor free.live
  rw [← same] at live
  apply (guards_write free (.iterator live)).bind
  intro _ _
  exact .pure trivial

end Iterators

section Operators

namespace Operator

variable {op : Operator} {result : Value}

theorem avoids_compared {order : Ordering} (done : op.compared order = some result) :
    result.Avoids vault := by
  obtain ⟨_, _, rfl⟩ := Option.map_eq_some_iff.mp done
  trivial

theorem avoids_onInts {left right : Int64} (done : op.onInts left right = .ok (some result)) :
    result.Avoids vault := by
  unfold onInts at done
  split at done
  all_goals first
    | cases done; trivial
    | exact avoids_compared (Except.ok.inj done)
    | split at done <;> cases done; trivial

theorem avoids_onFloats {left right : Float} (done : op.onFloats left right = some result) :
    result.Avoids vault := by
  unfold onFloats at done
  split at done <;> cases done <;> trivial

theorem avoids_charAt {code : Int} (done : charAt? code = some result) : result.Avoids vault := by
  unfold charAt? at done
  split at done <;> cases done
  trivial

theorem avoids_onCodePoints {left right : Int} (done : op.onCodePoints left right = some result) :
    result.Avoids vault := by
  unfold onCodePoints at done
  split at done
  · exact avoids_charAt done
  · exact avoids_charAt done
  · exact avoids_compared done

theorem avoids_join {left right : String} (done : join left right = .ok (some result)) :
    result.Avoids vault := by
  unfold join at done
  split at done <;> cases done
  trivial

end Operator

namespace Value

/-- An operator that needs no new cell gives a number, a character, a truth value or a text. -/
theorem avoids_operate {store : Store} {op : Operator} {left right result : Value}
    (done : left.operate store op right = .ok (some result)) : result.Avoids vault := by
  unfold operate at done
  split at done
  · exact Operator.avoids_onInts done
  · exact Operator.avoids_onFloats (Except.ok.inj done)
  · exact Operator.avoids_onCodePoints (Except.ok.inj done)
  · exact Operator.avoids_onFloats (Except.ok.inj done)
  · exact Operator.avoids_onFloats (Except.ok.inj done)
  · exact Operator.avoids_onCodePoints (Except.ok.inj done)
  · exact Operator.avoids_onCodePoints (Except.ok.inj done)
  · split at done
    · exact Operator.avoids_join done
    · exact Operator.avoids_compared (Except.ok.inj done)
  · split at done
    · exact Operator.avoids_join done
    · cases done
  · split at done
    · split at done <;> cases done
      trivial
    · cases done
  · cases done

theorem guards_binary (op : Operator) {left right : Value} (first : left.Avoids vault)
    (second : right.Avoids vault) : StoreM.Guards vault (binary op left right) (Avoids vault) := by
  apply Maintains.get.bind
  intro store kept
  split
  · apply StoreM.guards_newArray _ .writable
    exact avoids_append (kept.elements first.array_live) (kept.elements second.array_live)
  · split
    next result done => exact .pure (avoids_operate done)
    · exact .throw _
    · exact .throw _

theorem avoids_negative {store : Store} {value result : Value}
    (done : value.negative store = .ok result) : result.Avoids vault := by
  unfold negative at done
  split at done <;> cases done <;> trivial

theorem avoids_complement {store : Store} {value result : Value}
    (done : value.complement store = .ok result) : result.Avoids vault := by
  unfold complement at done
  split at done <;> cases done
  trivial

theorem guards_slice {value : Value} (avoids : value.Avoids vault) (low high : Value) :
    StoreM.Guards vault (value.slice low high) (Avoids vault) := by
  apply Maintains.get.bind
  intro store kept
  split
  · dsimp only
    split
    · exact StoreM.guards_newArray (avoids_extract (kept.elements avoids.array_live) _ _) .writable
    · exact .throw _
  · split
    · exact .pure trivial
    · exact .throw _
  · split
    · exact .pure trivial
    · exact .throw _
  · exact .throw _

end Value

end Operators

end ScriptMachine
