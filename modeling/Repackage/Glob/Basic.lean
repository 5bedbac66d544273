import Repackage.Glob.Lexeme
import Repackage.Glob.Pattern

/-!
Globs: patterns for the paths of files. `?` and sets stand for one byte, `*` for any
bytes, `**` between slashes for any directories, and braces hold alternatives.
-/

namespace Repackage
namespace Glob

/-- What a glob is made of. -/
inductive Token where
  | literal (c : Char)
  | any
  | star
  /-- Any directories in front, or none. -/
  | leading
  /-- Anything below a directory. -/
  | trailing
  /-- Any directories between two slashes, or none. -/
  | between
  | set (set : CharSet)
  | alternatives (branches : List (List Token))

/-- A group of alternatives that is being read: its finished branches and the tokens of
the last one, the latest first in both. -/
structure Group where
  branches : List (List Token) := []
  tokens : List Token := []

/-- What has been read of a glob: the innermost group, and the groups around it. The
outermost one is the glob itself. -/
structure Progress where
  group : Group := {}
  around : List Group := []

namespace Progress

def inBraces (progress : Progress) : Bool :=
  !progress.around.isEmpty

def push (progress : Progress) (token : Token) : Progress :=
  { progress with group := { progress.group with tokens := token :: progress.group.tokens } }

/-- Two stars that stand for no directories are two single ones. -/
def pushStars (progress : Progress) : Progress :=
  (progress.push .star).push .star

/-- Puts `token` in place of the last token. Directories in front stay what they are. -/
def replaceLast (progress : Progress) (token : Token) : Progress :=
  match progress.group.tokens with
  | .leading :: _ | .trailing :: _ => progress
  | _ :: rest => { progress with group := { progress.group with tokens := token :: rest } }
  | [] => progress.push token

def openGroup (progress : Progress) : Progress :=
  ⟨{}, progress.group :: progress.around⟩

def nextBranch (progress : Progress) : Progress :=
  { progress with
    group := ⟨progress.group.tokens.reverse :: progress.group.branches, []⟩ }

def closeGroup (progress : Progress) : Except Fault Progress :=
  match progress.around with
  | [] => .error .unopenedGroup
  | outer :: around =>
      let branches := (progress.group.tokens.reverse :: progress.group.branches).reverse
      .ok (Progress.push ⟨outer, around⟩ (.alternatives branches))

def finish (progress : Progress) : Except Fault (List Token) :=
  if progress.inBraces then .error .unclosedGroup else .ok progress.group.tokens.reverse

end Progress

/-- Reads the parts of a glob behind `last`, the character read before them. -/
def parseFrom (progress : Progress) (last : Option Char) :
    List Lexeme → Except Fault (List Token)
  | [] => progress.finish
  | .plain '*' :: .plain '*' :: rest =>
      let afterSlash := last = some '/'
      let afterMark := progress.inBraces && (last = some ',' || last = some '\x7b')
      if progress.group.tokens.isEmpty then
        match rest with
        | [] => (progress.push .leading).finish
        | .plain '/' :: rest => parseFrom (progress.push .leading) (some '/') rest
        | rest => parseFrom progress.pushStars (some '*') rest
      else if !(afterSlash || afterMark) then parseFrom progress.pushStars (some '*') rest
      else
        match rest with
        | [] => (progress.replaceLast .trailing).finish
        | .plain '/' :: rest => parseFrom (progress.replaceLast .between) (some '/') rest
        | .plain c :: rest =>
            if progress.inBraces && (c = ',' || c = '\x7d') then
              parseFrom (progress.replaceLast .trailing) (some '*') (.plain c :: rest)
            else parseFrom progress.pushStars (some '*') (.plain c :: rest)
        | rest => parseFrom progress.pushStars (some '*') rest
  | .plain '*' :: rest => parseFrom (progress.push .star) (some '*') rest
  | .plain '?' :: rest => parseFrom (progress.push .any) (some '?') rest
  | .plain '\x7b' :: rest => parseFrom progress.openGroup (some '\x7b') rest
  | .plain '\x7d' :: rest =>
      match progress.closeGroup with
      | .ok progress => parseFrom progress (some '\x7d') rest
      | .error fault => .error fault
  | .plain ',' :: rest =>
      if progress.inBraces then parseFrom progress.nextBranch (some ',') rest
      else parseFrom (progress.push (.literal ',')) (some ',') rest
  | .plain c :: rest | .escaped c :: rest => parseFrom (progress.push (.literal c)) (some c) rest
  | .set set :: rest => parseFrom (progress.push (.set set)) (some ']') rest
  | .broken fault :: _ => .error fault

/-- The bytes of a character in UTF-8. -/
def utf8 (c : Char) : List UInt8 :=
  Text.bytes (String.singleton c)

/-- The bytes of a range: those of its ends, and those between the last byte of its
first character and the first byte of its last. -/
def byteRanges (range : Char × Char) : List (UInt8 × UInt8) :=
  let single := fun byte => (byte, byte)
  if range.1 = range.2 then (utf8 range.1).map single
  else
    let first := utf8 range.1
    let last := utf8 range.2
    first.dropLast.map single
      ++ (first.getLast?.bind fun lo => last.head?.map fun hi => (lo, hi)).toList
      ++ last.tail.map single

def CharSet.toBytes (set : CharSet) : ByteSet :=
  ⟨set.negated, set.ranges.flatMap byteRanges⟩

mutual

/-- Whether the token stands for no text at all: a group without a branch that stands
for any. -/
def Token.isVoid : Token → Bool
  | .alternatives branches => allVoid branches
  | _ => false

def isVoidBranch : List Token → Bool
  | [] => true
  | token :: rest => token.isVoid && isVoidBranch rest

def allVoid : List (List Token) → Bool
  | [] => true
  | branch :: rest => isVoidBranch branch && allVoid rest

end

def slash : Pattern :=
  Pattern.bytes (utf8 '/')

mutual

def Token.toPattern : Token → Pattern
  | .literal c => .bytes (utf8 c)
  | .any => .anyByte
  | .star => .anything
  | .leading => .either .nothing (.either slash (.seq .anything slash))
  | .trailing => .seq slash .anything
  | .between => .either slash (.seq slash (.seq .anything slash))
  | .set set => .byte set.toBytes
  | .alternatives branches => .choice (branchPatterns branches)

def sequencePatterns : List Token → List Pattern
  | [] => []
  | token :: rest => token.toPattern :: sequencePatterns rest

/-- The patterns of the branches that are not void. -/
def branchPatterns : List (List Token) → List Pattern
  | [] => []
  | branch :: rest =>
      if isVoidBranch branch then branchPatterns rest
      else .sequence (sequencePatterns branch) :: branchPatterns rest

end

/-- The pattern of a whole glob. Leading directories alone match every path. -/
def ofTokens : List Token → Pattern
  | [.leading] => .anything
  | tokens => .sequence (sequencePatterns tokens)

def parse (glob : String) : Except Fault Pattern :=
  (parseFrom {} none (lexemes glob.toList)).map ofTokens

/-- Why a glob is refused, in words. -/
def refusal (glob : String) (fault : Fault) : String :=
  s!"invalid glob '{glob}': error parsing glob '{glob}': {fault.message}"

end Glob
end Repackage
