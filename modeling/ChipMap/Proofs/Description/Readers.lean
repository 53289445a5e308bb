import ChipMap.Proofs.Description.Children
import ChipMap.Proofs.Order.Siblings

/-!
# What readers tell apart

A reader sees of an element its attributes, the texts of some children and some elements inside it.
**Scopes that agree in these are read alike** (`Indistinct`): as the same value, or with faults that
differ in their locations only.  Which scopes are compared, and how far locations may differ, is
left open, so every such comparison is a relation with the five promises of `Indistinct`.

Two comparisons are made with it: of documents with and without unknown elements, and of documents
whose siblings stand in another order.

### What is load-bearing

Elements that may stand in any order are not among those that are compared one by one
(`fixedNames`), so what is proved here covers the nodes that hold none of them.  A name whose text
is read is none of the names of elements that hold others, hence a comparison may forget texts in
the latter.

Readings that agree are put together like readings (`Agrees.bind`, `Agrees.mapM_forall₂`).  So the
lemma of a reader follows the definition of the reader, line by line, and a reader that gets a
further attribute needs one further line.
-/

namespace ChipMap.Description

open Markup (Element)

/-! ### Names -/

/-- The names of the elements whose text is read.  A reader looks for the text of no other
element. -/
def valueNames : List String :=
  ["name", "displayName", "description", "vendor", "version", "groupName", "headerStructName",
    "prependToName", "appendToName", "alternateGroup", "alternateRegister", "addressUnitBits",
    "width", "size", "access", "protection", "resetValue", "resetMask", "dim", "dimIncrement",
    "dimIndex", "dimName", "baseAddress", "addressOffset", "offset", "usage", "value", "isDefault",
    "bitRange", "lsb", "msb", "bitOffset", "bitWidth", "modifiedWriteValues", "readAction",
    "writeAsRead", "useEnumeratedValues", "minimum", "maximum"]

/-- The names of the elements that hold others, and whose order is kept. -/
def fixedNames : List String :=
  ["addressBlock", "interrupt", "enumeratedValues", "enumeratedValue", "writeConstraint", "range"]

/-! ### Readings that agree -/

/-- **Faults that differ in their locations only**, and in these as far as `L` allows.  What is
wrong, and with which name or text, is the same. -/
inductive DocumentFault.Alike (L : Location → Location → Prop) :
    DocumentFault → DocumentFault → Prop
  | notWellFormed : Alike L .notWellFormed .notWellFormed
  | unexpectedRoot (found : String) : Alike L (.unexpectedRoot found) (.unexpectedRoot found)
  | missing {l l' : Location} (element : String) : L l l' →
    Alike L (.missing l element) (.missing l' element)
  | invalid {l l' : Location} (cause : Malformed) : L l l' →
    Alike L (.invalid l cause) (.invalid l' cause)
  | indexCount {l l' : Location} (expected : Word) (found : Nat) : L l l' →
    Alike L (.indexCount l expected found) (.indexCount l' expected found)

/-- **Readings agree** in related values or in faults that differ in their locations only.  A
reading never agrees with one that fails when it does not. -/
inductive Agrees (L : Location → Location → Prop) {α β : Type} (R : α → β → Prop) :
    Except DocumentFault α → Except DocumentFault β → Prop
  | ok {a : α} {b : β} : R a b → Agrees L R (.ok a) (.ok b)
  | error {e e' : DocumentFault} : e.Alike L e' → Agrees L R (.error e) (.error e')

namespace Agrees

variable {L : Location → Location → Prop} {α β γ δ : Type} {R : α → β → Prop} {S : γ → δ → Prop}

/-- Readings that agree succeed together. -/
theorem alike {c : Except DocumentFault α} {c' : Except DocumentFault β} (h : Agrees L R c c') :
    Alike R c c' := by
  cases h with
  | ok related => exact .ok related
  | error _ => exact .error

theorem bind {c : Except DocumentFault α} {c' : Except DocumentFault β}
    {f : α → Except DocumentFault γ} {f' : β → Except DocumentFault δ} (h : Agrees L R c c')
    (rest : ∀ a b, R a b → Agrees L S (f a) (f' b)) : Agrees L S (c >>= f) (c' >>= f') := by
  cases h with
  | ok related => exact rest _ _ related
  | error alike => exact .error alike

/-- Readings of one value are sequenced at once.  Most attributes are compared like this. -/
theorem bind_eq {c c' : Except DocumentFault α} {f : α → Except DocumentFault γ}
    {f' : α → Except DocumentFault δ} (h : Agrees L Eq c c')
    (rest : ∀ a, Agrees L S (f a) (f' a)) : Agrees L S (c >>= f) (c' >>= f') :=
  h.bind fun a _ same => same ▸ rest a

/-- **Steps that agree over related lists** agree entry by entry. -/
theorem mapM_forall₂ {xs : List α} {ys : List β} {f : α → Except DocumentFault γ}
    {f' : β → Except DocumentFault δ} (h : List.Forall₂ R xs ys)
    (step : ∀ x y, R x y → Agrees L S (f x) (f' y)) :
    Agrees L (List.Forall₂ S) (xs.mapM f) (ys.mapM f') :=
  ChipMap.mapM_forall₂ (Agrees L) .ok .bind h step

theorem of_forall₂ {c c' : Except DocumentFault (List α)} (h : Agrees L (List.Forall₂ Eq) c c') :
    Agrees L Eq c c' := by
  rwa [List.forall₂_eq_eq_eq] at h

end Agrees

/-! ### Scopes that readers do not tell apart -/

/-- **A relation of scopes that readers do not tell apart**, when locations are related by `L`.  The
promises are about one look at a scope each; what a reader makes of several looks follows. -/
structure Indistinct (L : Location → Location → Prop) (S : Scope → Scope → Prop) : Prop where
  attribute? : ∀ {s s'}, S s s' → ∀ name, s.attribute? name = s'.attribute? name
  text? : ∀ {s s'}, S s s' → ∀ name ∈ valueNames, s.text? name = s'.text? name
  location : ∀ {s s'}, S s s' → ∀ name ∈ valueNames, L (s.locationOf name) (s'.locationOf name)
  /-- The first element of a name. -/
  inner : ∀ {s s'}, S s s' → ∀ name ∈ fixedNames,
    Option.Rel (fun e e' => S (s.inner e (.only name)) (s'.inner e' (.only name)))
      (s.element.child? name) (s'.element.child? name)
  /-- All elements of a name, with their numbers. -/
  each : ∀ {s s'}, S s s' → ∀ name ∈ fixedNames, ∀ step,
    List.Forall₂ (fun a b => S (s.inner a.1 (.nth step a.2)) (s'.inner b.1 (.nth step b.2)))
      (s.element.named name).zipIdx (s'.element.named name).zipIdx

namespace Indistinct

variable {L : Location → Location → Prop} {S : Scope → Scope → Prop} (blind : Indistinct L S)
variable {s s' : Scope} (h : S s s') {α : Type} {name : String}

include blind h

/-! ### Attributes -/

theorem prose? (value : name ∈ valueNames) : s.prose? name = s'.prose? name := by
  rw [Scope.prose?, blind.text? h name value, ← Scope.prose?]

theorem missing (value : name ∈ valueNames) {R : α → α → Prop} :
    Agrees L R (s.missing name) (s'.missing name) :=
  .error (.missing name (blind.location h name value))

theorem invalid (value : name ∈ valueNames) (cause : Malformed) {R : α → α → Prop} :
    Agrees L R (s.invalid name cause) (s'.invalid name cause) :=
  .error (.invalid cause (blind.location h name value))

theorem required (value : name ∈ valueNames) :
    Agrees L Eq (s.required name) (s'.required name) := by
  rw [Scope.required, Scope.required, blind.text? h name value]
  cases s'.text? name with
  | none => exact blind.missing h value
  | some text =>
      dsimp only
      split
      · exact blind.missing h value
      · exact .ok rfl

theorem value? (value : name ∈ valueNames) (read : String → Except Malformed α) :
    Agrees L Eq (s.value? name read) (s'.value? name read) := by
  rw [Scope.value?, Scope.value?, blind.text? h name value]
  cases s'.text? name with
  | none => exact .ok rfl
  | some text =>
      dsimp only
      cases read text with
      | ok value => exact .ok rfl
      | error cause => exact blind.invalid h value cause

theorem word? (value : name ∈ valueNames) : Agrees L Eq (s.word? name) (s'.word? name) :=
  blind.value? h value _

theorem requiredValue (value : name ∈ valueNames) (read : String → Except Malformed α) :
    Agrees L Eq (s.requiredValue name read) (s'.requiredValue name read) := by
  refine (blind.value? h value read).bind_eq fun found => ?_
  cases found with
  | none => exact blind.missing h value
  | some found => exact .ok rfl

theorem requiredWord (value : name ∈ valueNames) :
    Agrees L Eq (s.requiredWord name) (s'.requiredWord name) := blind.requiredValue h value _

theorem derivableWord (value : name ∈ valueNames) (derivedFrom : Option String) :
    Agrees L Eq (s.derivableWord derivedFrom name) (s'.derivableWord derivedFrom name) := by
  unfold Scope.derivableWord
  split
  · exact blind.word? h value
  · exact (blind.requiredWord h value).bind_eq fun _ => .ok rfl

/-! ### Groups of attributes -/

theorem readProperties : Agrees L Eq (readProperties s) (readProperties s') := by
  refine (blind.word? h (by decide)).bind_eq fun size => ?_
  refine (blind.value? h (by decide) _).bind_eq fun access => ?_
  refine (blind.value? h (by decide) _).bind_eq fun protection => ?_
  refine (blind.word? h (by decide)).bind_eq fun resetValue => ?_
  exact (blind.word? h (by decide)).bind_eq fun resetMask => .ok rfl

theorem readDimension : Agrees L Eq (readDimension s) (readDimension s') := by
  refine (blind.word? h (by decide)).bind_eq fun dim => ?_
  cases dim with
  | none => exact .ok rfl
  | some count =>
      refine (blind.requiredWord h (by decide)).bind_eq fun increment => ?_
      refine (blind.value? h (by decide) _).bind_eq fun indices => ?_
      rw [blind.text? h _ (by decide)]
      cases indices with
      | none => exact .ok rfl
      | some texts =>
          dsimp only
          split
          · exact .error (.indexCount _ _ (blind.location h _ (by decide)))
          · exact .ok rfl

theorem readWriteConstraint :
    Agrees L Eq (readWriteConstraint s) (readWriteConstraint s') := by
  unfold Description.readWriteConstraint
  rcases optionRel_iff.mp (blind.inner h "writeConstraint" (by decide)) with
    ⟨left, right⟩ | ⟨c, c', left, right, constraint⟩
  · rw [left, right]
    exact .ok rfl
  · rw [left, right]
    refine (blind.value? constraint (by decide) _).bind_eq fun asRead => ?_
    cases asRead with
    | some required => exact .ok rfl
    | none =>
        refine (blind.value? constraint (by decide) _).bind_eq fun enumerated => ?_
        cases enumerated with
        | some required => exact .ok rfl
        | none =>
            dsimp only
            rcases optionRel_iff.mp (blind.inner constraint "range" (by decide)) with
              ⟨left, right⟩ | ⟨e, e', left, right, range⟩
            · rw [left, right]
              exact .ok rfl
            · rw [left, right]
              refine (blind.requiredWord range (by decide)).bind_eq fun minimum => ?_
              exact (blind.requiredWord range (by decide)).bind_eq fun maximum => .ok rfl

theorem checkBitRange (value : name ∈ valueNames) (msb lsb : Word) :
    Agrees L Eq (checkBitRange s name msb lsb) (checkBitRange s' name msb lsb) := by
  unfold Description.checkBitRange
  split
  · exact blind.invalid h value _
  · exact .ok rfl

theorem readBitRange : Agrees L Eq (readBitRange s) (readBitRange s') := by
  have checked {name : String} (value : name ∈ valueNames) (msb lsb : Word) :
      Agrees L Eq (do return some (← Description.checkBitRange s name msb lsb))
        (do return some (← Description.checkBitRange s' name msb lsb)) :=
    (blind.checkBitRange h value msb lsb).bind_eq fun _ => .ok rfl
  refine (blind.value? h (by decide) _).bind_eq fun written => ?_
  cases written with
  | some ends => exact checked (by decide) _ _
  | none =>
      refine (blind.word? h (by decide)).bind_eq fun lsb => ?_
      cases lsb with
      | some lsb =>
          refine (blind.requiredWord h (by decide)).bind_eq fun msb => ?_
          exact checked (by decide) _ _
      | none =>
          -- The reader only asks whether the highest bit is there, which its text tells.
          have same : (s.element.child? "msb").isSome = (s'.element.child? "msb").isSome := by
            have texts := congrArg Option.isSome (blind.text? h "msb" (by decide))
            rwa [Scope.text?, Scope.text?, Option.isSome_map, Option.isSome_map] at texts
          dsimp only
          rw [same]
          split
          · exact blind.missing h (by decide)
          · refine (blind.word? h (by decide)).bind_eq fun offset => ?_
            cases offset with
            | none => exact .ok rfl
            | some offset =>
                refine (blind.word? h (by decide)).bind_eq fun width => ?_
                split
                · exact checked (by decide) _ _
                · exact blind.invalid h (by decide) _

/-! ### Nodes -/

/-- **Elements whose order is kept** are read alike, one by one. -/
theorem readEach {read : Scope → Except DocumentFault α} (step : String)
    (fixed : name ∈ fixedNames) (each : ∀ {t t' : Scope}, S t t' → Agrees L Eq (read t) (read t')) :
    Agrees L Eq (s.readEach step read (s.element.named name))
      (s'.readEach step read (s'.element.named name)) :=
  .of_forall₂ (.mapM_forall₂ (blind.each h name fixed step) fun ⟨_, _⟩ ⟨_, _⟩ r => each r)

theorem readEnumeratedCase : Agrees L Eq (readEnumeratedCase s) (readEnumeratedCase s') := by
  refine (blind.value? h (by decide) _).bind_eq fun isDefault => ?_
  refine (blind.value? h (by decide) _).bind_eq fun value => ?_
  split
  · exact blind.missing h (by decide)
  · refine (blind.required h (by decide)).bind_eq fun name => ?_
    rw [blind.prose? h (by decide)]
    exact .ok rfl

theorem readEnumeratedSet : Agrees L Eq (readEnumeratedSet s) (readEnumeratedSet s') := by
  refine (blind.readEach h _ (by decide) blind.readEnumeratedCase).bind_eq fun cases => ?_
  refine (blind.value? h (by decide) _).bind_eq fun usage => ?_
  rw [blind.text? h _ (by decide)]
  exact .ok rfl

theorem readField : Agrees L Eq (readField s) (readField s') := by
  unfold Description.readField
  rw [blind.attribute? h]
  refine (blind.readBitRange h).bind_eq fun bitRange => ?_
  split
  · exact blind.missing h (by decide)
  · refine (blind.readEach h _ (by decide) blind.readEnumeratedSet).bind_eq fun sets => ?_
    refine (blind.required h (by decide)).bind_eq fun name => ?_
    refine (blind.value? h (by decide) _).bind_eq fun access => ?_
    refine (blind.value? h (by decide) _).bind_eq fun writeEffect => ?_
    refine (blind.readWriteConstraint h).bind_eq fun writeConstraint => ?_
    refine (blind.value? h (by decide) _).bind_eq fun readEffect => ?_
    refine (blind.readDimension h).bind_eq fun dimension => ?_
    rw [blind.prose? h (by decide)]
    exact .ok rfl

theorem readClusterInfo : Agrees L Eq (readClusterInfo s) (readClusterInfo s') := by
  unfold Description.readClusterInfo
  rw [blind.attribute? h]
  refine (blind.derivableWord h (by decide) _).bind_eq fun addressOffset => ?_
  refine (blind.required h (by decide)).bind_eq fun name => ?_
  refine (blind.readProperties h).bind_eq fun properties => ?_
  refine (blind.readDimension h).bind_eq fun dimension => ?_
  rw [blind.prose? h (by decide), blind.text? h _ (by decide)]
  exact .ok rfl

theorem readAddressBlock : Agrees L Eq (readAddressBlock s) (readAddressBlock s') := by
  refine (blind.requiredWord h (by decide)).bind_eq fun offset => ?_
  refine (blind.requiredWord h (by decide)).bind_eq fun size => ?_
  refine (blind.value? h (by decide) _).bind_eq fun usage => ?_
  exact (blind.value? h (by decide) _).bind_eq fun protection => .ok rfl

theorem readInterrupt : Agrees L Eq (readInterrupt s) (readInterrupt s') := by
  refine (blind.required h (by decide)).bind_eq fun name => ?_
  refine (blind.requiredValue h (by decide) _).bind_eq fun value => ?_
  rw [blind.prose? h (by decide)]
  exact .ok rfl

end Indistinct

end ChipMap.Description
