-- What can be wrong with the text of a pattern.

namespace Highlighting.Regex

/-- Why the text of a pattern was refused. -/
inductive ReadError where
  | emptyClass
  | emptyRange
  | classUnclosed
  | classAtRangeEnd
  | bracketName
  | propertyName (name : String)
  | endAtEscape
  | endAtControl
  | invalidControl
  | endAtMeta
  | invalidMeta
  | endInGroup
  | groupUnclosed
  | closeUnmatched
  | groupOption
  | groupNameEmpty
  | groupName (name : String)
  | groupNameChar (name : String)
  | undefinedName (name : String)
  | undefinedGroup (name : String)
  | ambiguousCall (name : String)
  | invalidBackref
  | repeatTarget
  | repeatTooBig
  | numberTooBig
  | codeTooBig
  | codeTooLong
  | codeTooShort
  | codeInvalid
  | bytesTooShort
  | lookBehind
  | conditional
  | tooDeep
  deriving DecidableEq, Repr

/-- The wording of each cause. -/
def ReadError.message : ReadError → String
  | emptyClass => "empty char-class"
  | emptyRange => "empty range in char class"
  | classUnclosed => "premature end of char-class"
  | classAtRangeEnd => "char-class value at end of range"
  | bracketName => "invalid POSIX bracket type"
  | propertyName n => "invalid character property name \x7b" ++ n ++ "\x7d"
  | endAtEscape => "end pattern at escape"
  | endAtControl => "end pattern at control"
  | invalidControl => "invalid control-code syntax"
  | endAtMeta => "end pattern at meta"
  | invalidMeta => "invalid meta-code syntax"
  | endInGroup => "end pattern in group"
  | groupUnclosed => "end pattern with unmatched parenthesis"
  | closeUnmatched => "unmatched close parenthesis"
  | groupOption => "undefined group option"
  | groupNameEmpty => "group name is empty"
  | groupName n => "invalid group name <" ++ n ++ ">"
  | groupNameChar n => "invalid char in group name <" ++ n ++ ">"
  | undefinedName n => "undefined name <" ++ n ++ "> reference"
  | undefinedGroup n => "undefined group <" ++ n ++ "> reference"
  | ambiguousCall n => "multiplex definition name <" ++ n ++ "> call"
  | invalidBackref => "invalid backref number/name"
  | repeatTarget => "target of repeat operator is not specified"
  | repeatTooBig => "too big number for repeat range"
  | numberTooBig => "too big number"
  | codeTooBig => "too big wide-char value"
  | codeTooLong => "too long wide-char value"
  | codeTooShort => "too short digits"
  | codeInvalid => "invalid code point value"
  | bytesTooShort => "too short multibyte string"
  | lookBehind => "invalid pattern in look-behind"
  | conditional => "invalid if-else syntax"
  | tooDeep => "parse depth limit over"

end Highlighting.Regex
