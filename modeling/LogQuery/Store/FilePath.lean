import LogQuery.Text.Split

/-!
# Paths of files

A path is kept as written, since messages show it, and compared by its parts:
`app/./x` and `app//x` are one path, `app/../x` and `x` are two.
-/

namespace LogQuery.Store

structure FilePath where
  text : String
deriving DecidableEq, Repr, Inhabited

namespace FilePath

def isAbsolute (p : FilePath) : Bool := p.text.toList.head? == some '/'

/-- A path below another one; an absolute path stays as it is. -/
def join (base : FilePath) (name : String) : FilePath :=
  if isAbsolute ⟨name⟩ then ⟨name⟩
  else if base.text.isEmpty || base.text.toList.getLast? == some '/' then ⟨base.text ++ name⟩
  else ⟨base.text ++ "/" ++ name⟩

/-- What stands between the slashes. -/
def parts (p : FilePath) : List String := (Text.splitOn '/' p.text.toList).map String.ofList

/-- A part that leads nowhere. -/
def isIdle (part : String) : Bool := part.isEmpty || part == "."

/-- The parts that count. A dot does at the start of a relative path. -/
def components (p : FilePath) : List String :=
  match p.parts with
  | [] => []
  | first :: rest =>
    (if first.isEmpty then [] else [first]) ++ rest.filter fun part => !isIdle part

/-- Whether two paths have the same components. -/
def same (a b : FilePath) : Bool := a.isAbsolute == b.isAbsolute && a.components == b.components

/-- Whether a list holds a path, whatever its spelling. -/
def isIn (p : FilePath) (ps : List FilePath) : Bool := ps.any p.same

end FilePath

end LogQuery.Store
