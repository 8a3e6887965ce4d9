import RecordStore.Text.Hex
import RecordStore.Text.Hidden

namespace RecordStore.Quoted

def escape (c : Char) : List Char :=
  match c with
  | '\x00' => ['\\', '0']
  | '\t' => ['\\', 't']
  | '\r' => ['\\', 'r']
  | '\n' => ['\\', 'n']
  | '\\' => ['\\', '\\']
  | '"' => ['\\', '"']
  | c => if Hidden.isHidden c then "\\u\x7b".toList ++ (Hex.ofNat c.toNat).toList ++ ['\x7d'] else [c]

def text (s : String) : String := String.ofList ('"' :: s.toList.flatMap escape ++ ['"'])

end RecordStore.Quoted
