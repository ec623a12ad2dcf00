import Brushwork.Operator

/-!
# Tokens

The smallest parts of an expression, and the text by which a list of them is
shown: their own texts with a space between each two.
-/

namespace Brushwork

inductive Token where
  | number (n : Int)
  | name (t : Text)
  /-- A text in double quotation marks. -/
  | quotation (t : Text)
  | truth (b : Bool)
  | arith (op : Arith)
  | compare (op : Comparison)
  | both
  | either
  | opening
  | closing
  | comma
  deriving DecidableEq

namespace Token

def text : Token → Text
  | .number n => decimal n
  | .name t => t
  | .quotation t => '"' :: t ++ ['"']
  | .truth true => "true".toList
  | .truth false => "false".toList
  | .arith op => op.symbol
  | .compare op => op.symbol
  | .both => "&&".toList
  | .either => "||".toList
  | .opening => "(".toList
  | .closing => ")".toList
  | .comma => ",".toList

def isComparison : Token → Bool
  | .compare _ => true
  | _ => false

def isLogical : Token → Bool
  | .both | .either => true
  | _ => false

/-- Whether an operand can end with a token, so that a minus after it subtracts. -/
def endsOperand : Token → Bool
  | .number _ | .name _ | .quotation _ | .truth _ | .closing => true
  | _ => false

def render (tokens : List Token) : Text := [' '].intercalate (tokens.map text)

end Token

end Brushwork
