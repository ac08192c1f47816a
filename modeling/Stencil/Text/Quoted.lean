import Stencil.Text.Blank
import Stencil.Text.Quoted.Table

/-! # Quoted text

A text between double quotes on one line: the quote, the backslash and the usual controls get a
backslash, and a character that would not show on its own is written by its code point. -/
namespace Stencil

namespace Quoted

def isShown (c : Char) : Bool :=
  !(inRanges hiddenRanges c || inRanges extendingRanges c)

def byCode (c : Char) : Text :=
  ['\\', 'u', '\x7b'] ++ Nat.toDigits 16 c.toNat ++ ['\x7d']

def quoteChar (c : Char) : Text :=
  if c = '\x00' then ['\\', '0']
  else if c = '\t' then ['\\', 't']
  else if c = '\r' then ['\\', 'r']
  else if c = '\n' then ['\\', 'n']
  else if c = '"' ∨ c = '\\' then ['\\', c]
  else if isShown c then [c]
  else byCode c

end Quoted

def Text.quoted (text : Text) : Text := ['"'] ++ text.flatMap Quoted.quoteChar ++ ['"']

end Stencil
