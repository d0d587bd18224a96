import DeviceShell.Proofs.RoundTrip
import DeviceShell.Proofs.Verdicts

/-!
# Three views of a command

A command can be compared directly, by its canonical line and by its JSON view. The three comparisons
agree for all commands, also for those whose number no line can have: a command is its kind and its
number, each of which stands in the line and in the view, and a numeral belongs to one integer only.
So nothing is lost in the view, and two lines are read as the same command exactly when they have the
same canonical line.
-/
namespace DeviceShell.Proofs.Views

open Positional (placeValue)

/-- The integer that a numeral stands for, with or without a minus sign in front. -/
def integerOf (s : String) : Int :=
  match s.toList with
  | '-' :: cs => -(placeValue cs : Int)
  | cs => (placeValue cs : Int)

theorem integerOf_writeInt (n : Int) : integerOf (Numeral.writeInt n) = n := by
  cases n with
  | ofNat m =>
    have hvalue := Positional.placeValue_write m
    have hrun := Positional.run_write m
    rw [Numeral.writeInt, integerOf]
    split
    · next cs hcs =>
      -- A minus sign is no digit.
      rw [hcs] at hrun
      exact absurd (hrun.mem_digits '-' List.mem_cons_self) (by decide)
    · rw [hvalue]
      rfl
  | negSucc m =>
    have hsign : (Numeral.writeInt (.negSucc m)).toList = '-' :: (Numeral.write (m + 1)).toList := by
      rw [Numeral.writeInt, String.toList_append]
      rfl
    simp only [integerOf, hsign, Positional.placeValue_write]
    rfl

theorem writeInt_injective {m n : Int} (h : Numeral.writeInt m = Numeral.writeInt n) : m = n := by
  rw [← integerOf_writeInt m, h, integerOf_writeInt]

/-- The command of a kind, with a number where the kind calls for one. -/
def ofParts? : CommandKind → Option Int → Option Command
  | .scan, some seconds => some (.scan seconds)
  | .test, some count => some (.test count)
  | .exit, none => some .exit
  | .help, none => some .help
  | .list, none => some .list
  | _, _ => none

theorem ofParts?_self (c : Command) : ofParts? c.kind c.number? = some c := by
  cases c <;> rfl

theorem eq_of_kind_of_number? {a b : Command} (hkind : a.kind = b.kind)
    (hnumber : a.number? = b.number?) : a = b := by
  have hparts := ofParts?_self a
  rw [hkind, hnumber, ofParts?_self] at hparts
  exact (Option.some.inj hparts).symm

theorem name_injective {k l : CommandKind} (h : k.name = l.name) : k = l := by
  revert h
  cases k <;> cases l <;> decide

theorem length_name (k : CommandKind) : k.name.toList.length = 4 := by
  cases k <;> rfl

/-- What stands behind the name of the kind. -/
def numberPart : Option Int → String
  | none => ""
  | some n => " " ++ Numeral.writeInt n

theorem canonical_eq (c : Command) : c.canonical = c.kind.name ++ numberPart c.number? := by
  cases c with
  | scan seconds =>
    show _ = "scan" ++ (" " ++ Numeral.writeInt seconds)
    rw [← String.append_assoc]
    rfl
  | test count =>
    show _ = "test" ++ (" " ++ Numeral.writeInt count)
    rw [← String.append_assoc]
    rfl
  | exit => rfl
  | help => rfl
  | list => rfl

theorem numberPart_injective {m n : Option Int} (h : numberPart m = numberPart n) : m = n := by
  have hspace : ∀ k : Int, " " ++ Numeral.writeInt k ≠ "" := fun k he =>
    absurd (String.append_eq_empty_iff.mp he).1 (by decide)
  cases m with
  | none =>
    cases n with
    | none => rfl
    | some n => exact absurd h.symm (hspace n)
  | some m =>
    cases n with
    | none => exact absurd h (hspace m)
    | some n =>
      have hwritten : Numeral.writeInt m = Numeral.writeInt n := (String.append_right_inj " ").mp h
      rw [writeInt_injective hwritten]

/-- Commands with one canonical line are one command. -/
theorem canonical_injective {a b : Command} (h : a.canonical = b.canonical) : a = b := by
  rw [canonical_eq, canonical_eq, ← String.toList_inj, String.toList_append,
    String.toList_append] at h
  have hlength : a.kind.name.toList.length = b.kind.name.toList.length := by
    rw [length_name, length_name]
  obtain ⟨hkind, hnumber⟩ := List.append_inj h hlength
  exact eq_of_kind_of_number? (name_injective (String.toList_inj.mp hkind))
    (numberPart_injective (String.toList_inj.mp hnumber))

/-- Equal objects: under every name both have the same, or nothing. -/
def SameObject (v v' : Json) : Prop := ∀ name, v.field? name = v'.field? name

/-- The integer that is shown under a name. -/
def integer? (name : String) (view : Json) : Option Int :=
  match view.field? name with
  | some (.str s) => some (integerOf s)
  | _ => none

/-- The command that a view shows. -/
def ofView? (view : Json) : Option Command :=
  match view.field? "kind" with
  | some (.str "scan") => (integer? "seconds" view).map .scan
  | some (.str "test") => (integer? "count" view).map .test
  | some (.str "exit") => some .exit
  | some (.str "help") => some .help
  | some (.str "list") => some .list
  | _ => none

theorem ofView?_eq_of_sameObject {v v' : Json} (h : SameObject v v') : ofView? v = ofView? v' := by
  have hinteger : ∀ name, integer? name v = integer? name v' := by
    intro name
    rw [integer?, integer?, h name]
  rw [ofView?, ofView?, h "kind", hinteger "seconds", hinteger "count"]

/-- A view loses nothing. -/
theorem ofView?_toJson (c : Command) : ofView? c.toJson = some c := by
  cases c with
  | scan seconds =>
    have hshown : integer? "seconds" (Command.scan seconds).toJson = some seconds :=
      congrArg some (integerOf_writeInt seconds)
    show (integer? "seconds" (Command.scan seconds).toJson).map Command.scan = _
    rw [hshown, Option.map_some]
  | test count =>
    have hshown : integer? "count" (Command.test count).toJson = some count :=
      congrArg some (integerOf_writeInt count)
    show (integer? "count" (Command.test count).toJson).map Command.test = _
    rw [hshown, Option.map_some]
  | exit => rfl
  | help => rfl
  | list => rfl

theorem eq_of_sameObject {a b : Command} (h : SameObject a.toJson b.toJson) : a = b := by
  have hshown := ofView?_eq_of_sameObject h
  rw [ofView?_toJson, ofView?_toJson] at hshown
  exact Option.some.inj hshown

/-- Commands are equal exactly when their canonical lines are, and exactly when their views are; the
view, and its text as well, gives the command back; and two lines that are read as commands are read
alike exactly when the commands have one canonical line. -/
theorem views_agree (a b : Command) :
    (a.same b = true ↔ a.canonical = b.canonical) ∧
    (a.canonical = b.canonical ↔ SameObject a.toJson b.toJson) ∧
    (SameObject a.toJson b.toJson ↔ a.toJson = b.toJson) ∧
    (ofView? a.toJson = some a ∧ Json.read? a.toJson.indented = some a.toJson) ∧
    ∀ line line', Command.parse line = .ok a → Command.parse line' = .ok b →
      (Command.parse line = Command.parse line' ↔ a.canonical = b.canonical) := by
  refine ⟨?_, ⟨fun h => ?_, fun h => ?_⟩, ⟨fun h => ?_, fun h => ?_⟩, ⟨?_, ?_⟩, ?_⟩
  · rw [Command.same_iff_eq]
    exact ⟨congrArg Command.canonical, canonical_injective⟩
  · rw [canonical_injective h]
    exact fun _ => rfl
  · rw [eq_of_sameObject h]
  · rw [eq_of_sameObject h]
  · rw [h]
    exact fun _ => rfl
  · exact ofView?_toJson a
  · exact JsonReading.read?_indented (Verdicts.exact_command a)
  · intro line line' ha hb
    rw [ha, hb, Except.ok.injEq]
    exact ⟨congrArg Command.canonical, canonical_injective⟩

/-- Spellings of one command: the two words that leave the shell, and a number with leading zeros. -/
theorem views_agree_spellings :
    (Command.parse "exit" = .ok .exit ∧ Command.parse "\u3000quit" = .ok .exit ∧
      (Command.parse "exit" = Command.parse "\u3000quit" ↔
        Command.exit.canonical = Command.exit.canonical)) ∧
    (Command.parse "scan 7" = .ok (.scan 7) ∧ Command.parse "scan  007" = .ok (.scan 7) ∧
      (Command.parse "scan 7" = Command.parse "scan  007" ↔
        (Command.scan 7).canonical = (Command.scan 7).canonical)) ∧
    (Command.parse "test 7" = .ok (.test 7) ∧ Command.parse "scan 7" = .ok (.scan 7) ∧
      (Command.parse "test 7" = Command.parse "scan 7" ↔
        (Command.test 7).canonical = (Command.scan 7).canonical)) := by
  have hexit : Command.parse "exit" = .ok .exit := by rfl
  have hquit : Command.parse "\u3000quit" = .ok .exit := by rfl
  have hscan : Command.parse "scan 7" = .ok (.scan 7) := by rfl
  have hzeros : Command.parse "scan  007" = .ok (.scan 7) := by rfl
  have htest : Command.parse "test 7" = .ok (.test 7) := by rfl
  exact ⟨⟨hexit, hquit, (views_agree .exit .exit).2.2.2.2 _ _ hexit hquit⟩,
    ⟨hscan, hzeros, (views_agree (.scan 7) (.scan 7)).2.2.2.2 _ _ hscan hzeros⟩,
    htest, hscan, (views_agree (.test 7) (.scan 7)).2.2.2.2 _ _ htest hscan⟩

end DeviceShell.Proofs.Views
