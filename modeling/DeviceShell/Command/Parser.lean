import DeviceShell.Command.Rejection

/-!
# Reading a line

The grammar has one production for each keyword: the keyword alone, or the keyword and one number.
Words are separated by blanks and keywords are case-sensitive. The number of words is checked
before the number itself is read, so surplus words win over a malformed number.
-/
namespace DeviceShell.Command

/-- Reads the words behind a keyword. -/
def ofArguments (k : Keyword) (head : Token) (rest : List Token) : Except Rejection Command :=
  match k.form, rest with
  | .bare command, [] => .ok command
  | .bare _, word :: _ => .error (.trailing k word)
  | .counted _ _, [] => .error (.missingArgument k head.stop)
  | .counted _ build, [word] =>
    match Numeral.read word.text with
    | .value n => .ok (build n)
    | .overflow => .error (.tooLarge k word)
    | .invalid => .error (.notANumber k word)
  | .counted _ _, _ :: extra :: more => .error (.surplus k extra (more.length + 2))

def ofTokens : List Token → Except Rejection Command
  | [] => .error .blank
  | head :: rest =>
    match Keyword.ofText? head.text with
    | none => .error (.unknownKeyword head)
    | some k => ofArguments k head rest

/-- Reads one line as a command. -/
def parse (line : String) : Except ParseError Command :=
  (ofTokens (Token.ofLine line)).mapError (.ofRejection line)

end DeviceShell.Command
