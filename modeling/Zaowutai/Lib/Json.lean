import Mathlib.Data.List.Basic

/-!
# JSON documents

Documents with the merge patch, in which a null removes a member, and with
members that are read and set at a path.  An array is a scalar, as nothing here
looks into it.
-/

namespace Zaowutai.Lib

mutual

inductive Json (Scalar : Type)
  | null
  | scalar (value : Scalar)
  | object (members : Members Scalar)

inductive Members (Scalar : Type)
  | nil
  | cons (key : String) (value : Json Scalar) (rest : Members Scalar)

end

variable {Scalar : Type}

namespace Members

def find (key : String) : Members Scalar → Option (Json Scalar)
  | .nil => none
  | .cons name value rest => if name = key then some value else rest.find key

/-- The member is replaced where it stands, or comes last. -/
def put (key : String) (value : Json Scalar) : Members Scalar → Members Scalar
  | .nil => .cons key value .nil
  | .cons name old rest =>
      if name = key then .cons name value rest else .cons name old (rest.put key value)

def erase (key : String) : Members Scalar → Members Scalar
  | .nil => .nil
  | .cons name old rest => if name = key then rest else .cons name old (rest.erase key)

theorem find_put (key other : String) (value : Json Scalar) : ∀ m : Members Scalar,
    (m.put key value).find other = if other = key then some value else m.find other
  | .nil => by
      rw [put, find, find, find]
      by_cases h : other = key
      · rw [if_pos h.symm, if_pos h]
      · rw [if_neg (Ne.symm h), if_neg h]
  | .cons name old rest => by
      rw [put]
      split
      · next hname =>
          rw [find, find, hname]
          by_cases h : other = key
          · rw [if_pos h.symm, if_pos h]
          · rw [if_neg (Ne.symm h), if_neg h, if_neg (Ne.symm h)]
      · next hname =>
          rw [find, find, find_put key other value rest]
          by_cases h : other = key
          · rw [if_pos h, if_neg (h ▸ hname), if_pos h]
          · rw [if_neg h, if_neg h]

end Members

namespace Json

def members : Json Scalar → Members Scalar
  | .object m => m
  | _ => .nil

mutual

def patch (target : Json Scalar) : Json Scalar → Json Scalar
  | .object changes => .object (patchMembers target.members changes)
  | .null => .null
  | .scalar value => .scalar value

def patchMembers (m : Members Scalar) : Members Scalar → Members Scalar
  | .nil => m
  | .cons key value rest =>
      match value with
      | .null => patchMembers (m.erase key) rest
      | .scalar value => patchMembers (m.put key (.scalar value)) rest
      | .object changes =>
          patchMembers (m.put key (patch ((m.find key).getD .null) (.object changes))) rest

end

def get : List String → Json Scalar → Option (Json Scalar)
  | [], j => some j
  | key :: path, .object m => (m.find key).bind (get path)
  | _ :: _, _ => none

def nest : List String → Json Scalar → Json Scalar
  | [], value => value
  | key :: path, value => .object (.cons key (nest path value) .nil)

/-- The value is set at the path.  Objects that are missing on the way are made; where something
else is in the way the document stays as it is. -/
def set : List String → Json Scalar → Json Scalar → Json Scalar
  | [], value, _ => value
  | key :: path, value, .object m =>
      .object (m.put key ((m.find key).elim (nest path value) (set path value)))
  | _ :: _, _, target => target

/-- Nothing is in the way of the path. -/
def Reaches : List String → Json Scalar → Prop
  | [], _ => True
  | key :: path, .object m => ∀ child ∈ m.find key, Reaches path child
  | _ :: _, _ => False

theorem get_nest : ∀ (path : List String) (value : Json Scalar),
    get path (nest path value) = some value
  | [], _ => rfl
  | key :: path, value => by
      rw [nest, get, Members.find, if_pos rfl]
      exact get_nest path value

theorem get_set : ∀ {path : List String} {target : Json Scalar} (value : Json Scalar),
    Reaches path target → get path (set path value target) = some value
  | [], _, _, _ => rfl
  | key :: path, .object m, value, h => by
      rw [set, get, Members.find_put, if_pos rfl]
      cases hfind : m.find key with
      | none => exact get_nest path value
      | some child => exact get_set value (h child hfind)

theorem get_set_of_not_reaches : ∀ {path : List String} {target : Json Scalar}
    (value : Json Scalar), ¬Reaches path target → get path (set path value target) = none
  | [], _, _, h => absurd trivial h
  | _ :: _, .null, _, _ => rfl
  | _ :: _, .scalar _, _, _ => rfl
  | key :: path, .object m, value, h => by
      rw [set, get, Members.find_put, if_pos rfl]
      rw [Reaches] at h
      push Not at h
      obtain ⟨child, hchild, hnot⟩ := h
      rw [Option.mem_def.mp hchild]
      exact get_set_of_not_reaches value hnot

/-- Neither path leads through the place of the other. -/
def Apart (path other : List String) : Prop := ¬path <+: other ∧ ¬other <+: path

theorem Apart.tail {key : String} {path other : List String}
    (h : Apart (key :: path) (key :: other)) : Apart path other := by
  refine ⟨fun hle ↦ h.1 ?_, fun hle ↦ h.2 ?_⟩
  · exact List.cons_prefix_cons.mpr ⟨rfl, hle⟩
  · exact List.cons_prefix_cons.mpr ⟨rfl, hle⟩

theorem get_nest_of_apart : ∀ {path other : List String} (value : Json Scalar),
    Apart path other → get other (nest path value) = none
  | [], _, _, h => absurd List.nil_prefix h.1
  | _ :: _, [], _, h => absurd List.nil_prefix h.2
  | key :: path, name :: other, value, h => by
      rw [nest, get, Members.find]
      split
      · next hkey =>
          subst hkey
          exact get_nest_of_apart value h.tail
      · rfl

theorem get_set_of_apart : ∀ {path other : List String} (value target : Json Scalar),
    Apart path other → get other (set path value target) = get other target
  | [], _, _, _, h => absurd List.nil_prefix h.1
  | _ :: _, [], _, _, h => absurd List.nil_prefix h.2
  | _ :: _, _ :: _, _, .null, _ => rfl
  | _ :: _, _ :: _, _, .scalar _, _ => rfl
  | key :: path, name :: other, value, .object m, h => by
      rw [set, get, get, Members.find_put]
      split
      · next hkey =>
          subst hkey
          cases m.find name with
          | none => exact get_nest_of_apart value h.tail
          | some child => exact get_set_of_apart value child h.tail
      · rfl

end Json

end Zaowutai.Lib
