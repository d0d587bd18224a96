import DeviceShell.Config.Shape
import DeviceShell.Decimal.Shortest

/-!
# A validator

One validator of the shape of settings, with words of its own: it tells what was expected and what
was received instead. What passes is put together from the known fields that are there. `lawful_plain`
says that it can be relied on.
-/
namespace DeviceShell.Config.Shape

/-- How a text is shown among other values: in quotes but not escaped. -/
def quoted (s : String) : String := "\"" ++ s ++ "\""

def Leaf.expected : Leaf → String
  | .oneOf names => "(" ++ " | ".intercalate (names.map quoted) ++ ")"
  | .boolean => "boolean"

/-- How a received value is told; a container by its kind. -/
def received : Json → String
  | .null => "null"
  | .bool true => "true"
  | .bool false => "false"
  | .num d => d.text
  | .str s => quoted s
  | .arr _ => "Array"
  | .obj _ => "Object"

def mismatch (expected : String) (value : Json) : String :=
  "Invalid type: Expected " ++ expected ++ " but received " ++ received value

/-- What is wrong at an entry, if anything is. -/
def Entry.issue? (root : Json) (e : Entry) : Option Issue :=
  match root.field? e.field with
  | none => none
  | some value =>
    if e.leaf.admits value then none else some ⟨some e.field, mismatch e.leaf.expected value⟩

/-- The known fields that are there. -/
def known (entries : List Entry) (root : Json) : Json :=
  .obj (entries.filterMap fun e => (root.field? e.field).map fun value => (e.field, value))

namespace Validator

def plain : Validator where
  check entries root :=
    if isRecord root then
      match entries.filterMap (Entry.issue? root) with
      | [] => .ok (known entries root)
      | issues => .error issues
    else .error [⟨none, mismatch "Object" root⟩]

theorem issue?_eq_none_iff {e : Entry} {root : Json} :
    e.issue? root = none ↔ e.admits root = true := by
  rw [Entry.issue?, Entry.admits]
  cases root.field? e.field with
  | none => exact iff_of_true rfl rfl
  | some value => cases e.leaf.admits value <;> simp

theorem path?_of_issue? {e : Entry} {root : Json} {i : Issue} (h : e.issue? root = some i) :
    i.path? = some e.field := by
  rw [Entry.issue?] at h
  split at h
  · cases h
  · split at h
    · cases h
    · obtain rfl := Option.some.inj h
      rfl

theorem map_path?_issues (entries : List Entry) (root : Json) :
    (entries.filterMap (Entry.issue? root)).map Issue.path? =
      (entries.filter fun e => !e.admits root).map fun e => some e.field := by
  induction entries with
  | nil => rfl
  | cons e entries ih =>
    cases hi : e.issue? root with
    | none =>
      have hadmits := issue?_eq_none_iff.mp hi
      rw [List.filterMap_cons_none hi, List.filter_cons_of_neg (by simp [hadmits])]
      exact ih
    | some i =>
      have hrefused : ¬ e.admits root = true := by
        intro hadmits
        rw [issue?_eq_none_iff.mpr hadmits] at hi
        cases hi
      rw [List.filterMap_cons_some hi, List.filter_cons_of_pos (by simp [hrefused]),
        List.map_cons, List.map_cons, path?_of_issue? hi, ih]

theorem issues_eq_nil_iff (entries : List Entry) (root : Json) :
    entries.filterMap (Entry.issue? root) = [] ↔ ∀ e ∈ entries, e.admits root = true := by
  rw [List.filterMap_eq_nil_iff]
  constructor
  · intro h e he
    exact issue?_eq_none_iff.mp (h e he)
  · intro h e he
    exact issue?_eq_none_iff.mpr (h e he)

theorem field?_known (entries : List Entry) (root : Json) (name : String) :
    (known entries root).field? name =
      if name ∈ entries.map Entry.field then root.field? name else none := by
  show List.lookup name _ = _
  induction entries with
  | nil => rfl
  | cons e entries ih =>
    by_cases he : name = e.field
    · subst he
      cases hr : root.field? e.field with
      | none =>
        rw [hr, ite_self] at ih
        simp [hr, ih]
      | some value => simp [hr]
    · have hne : (name == e.field) = false := beq_false_of_ne he
      cases hr : root.field? e.field with
      | none => simp [hr, he, ih]
      | some value => simp [hr, he, hne, List.lookup_cons, ih]

theorem plain_check (entries : List Entry) (root : Json) :
    (isRecord root = false ∧
      plain.check entries root = .error [⟨none, mismatch "Object" root⟩]) ∨
    (isRecord root = true ∧ (∀ e ∈ entries, e.admits root = true) ∧
      plain.check entries root = .ok (known entries root)) ∨
    (isRecord root = true ∧ (¬ ∀ e ∈ entries, e.admits root = true) ∧
      plain.check entries root = .error (entries.filterMap (Entry.issue? root))) := by
  cases hr : isRecord root with
  | false => exact .inl ⟨rfl, by simp [plain, hr]⟩
  | true =>
    have hnil := issues_eq_nil_iff entries root
    cases hi : entries.filterMap (Entry.issue? root) with
    | nil => exact .inr (.inl ⟨rfl, hnil.mp hi, by simp [plain, hr, hi]⟩)
    | cons i issues =>
      rw [hi] at hnil
      exact .inr (.inr ⟨rfl, fun h => List.cons_ne_nil i issues (hnil.mpr h),
        by simp [plain, hr, hi]⟩)

theorem lawful_plain : plain.Lawful where
  passes entries root := by
    rcases plain_check entries root with ⟨hr, hc⟩ | ⟨hr, hall, hc⟩ | ⟨hr, hall, hc⟩
    · rw [hc]
      simp [hr]
    · rw [hc]
      exact iff_of_true ⟨_, rfl⟩ ⟨hr, hall⟩
    · rw [hc]
      simp [hall]
  keeps {entries root out} h e he := by
    rcases plain_check entries root with ⟨hr, hc⟩ | ⟨hr, hall, hc⟩ | ⟨hr, hall, hc⟩
    · rw [hc] at h
      cases h
    · rw [hc] at h
      obtain rfl := Except.ok.inj h
      rw [field?_known, if_pos (List.mem_map_of_mem he)]
    · rw [hc] at h
      cases h
  whole {entries root issues} hroot h := by
    rcases plain_check entries root with ⟨hr, hc⟩ | ⟨hr, hall, hc⟩ | ⟨hr, hall, hc⟩
    · rw [hc] at h
      exact ⟨_, (Except.error.inj h).symm⟩
    · rw [hr] at hroot
      cases hroot
    · rw [hr] at hroot
      cases hroot
  places {entries root issues} hroot h := by
    rcases plain_check entries root with ⟨hr, hc⟩ | ⟨hr, hall, hc⟩ | ⟨hr, hall, hc⟩
    · rw [hr] at hroot
      cases hroot
    · rw [hc] at h
      cases h
    · rw [hc] at h
      obtain rfl := Except.error.inj h
      exact map_path?_issues entries root

end Validator

end DeviceShell.Config.Shape
