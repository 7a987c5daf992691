import PackageSheet.FileList.Entry

namespace PackageSheet.Listing

def hexDigit (n : Nat) : Char :=
  if n < 10 then Char.ofNat ('0'.toNat + n) else Char.ofNat ('a'.toNat + (n - 10))

/-- A character inside a JSON string. -/
def jsonChar (c : Char) : List Char :=
  match c with
  | '\x22' => ['\\', '\x22']
  | '\\' => ['\\', '\\']
  | '\n' => ['\\', 'n']
  | '\r' => ['\\', 'r']
  | '\t' => ['\\', 't']
  | '\x08' => ['\\', 'b']
  | '\x0c' => ['\\', 'f']
  | c =>
    if c.toNat < 0x20 then
      ['\\', 'u', '0', '0', hexDigit (c.toNat / 16), hexDigit (c.toNat % 16)]
    else [c]

def jsonText (text : String) : String :=
  String.ofList ('\x22' :: text.toList.flatMap jsonChar ++ ['\x22'])

/-- Items between an opening and a closing mark, each on a line of its own below them. -/
def jsonBlock (opening closing indent : String) (items : List String) : String :=
  if items.isEmpty then opening ++ closing
  else
    let inner := ",\n".intercalate (items.map ((indent ++ "  ") ++ ·))
    opening ++ "\n" ++ inner ++ "\n" ++ indent ++ closing

/-- An entry as a JSON object. -/
def jsonEntry (entry : Entry) : String :=
  jsonBlock "\x7b" "\x7d" "      "
    ["\x22source\x22: " ++ jsonText entry.source.text,
      "\x22destination\x22: " ++ jsonText entry.destination.text]

/-- A file list as a JSON object. -/
def jsonList (list : String × List Entry) : String :=
  jsonBlock "\x7b" "\x7d" "  "
    ["\x22name\x22: " ++ jsonText list.1,
      "\x22entries\x22: " ++ jsonBlock "[" "]" "    " (list.2.map jsonEntry)]

def json (lists : List (String × List Entry)) : String :=
  jsonBlock "[" "]" "" (lists.map jsonList)

def line (entry : Entry) : String :=
  s!"  {entry.source.text} -> {entry.destination.text}"

end PackageSheet.Listing
