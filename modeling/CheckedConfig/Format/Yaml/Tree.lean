import CheckedConfig.Format.Yaml.Token

namespace CheckedConfig

namespace Yaml

inductive Tree where
  | scalar (plain : Bool) (tag : Option String) (text : String)
  | sequence (tag : Option String) (items : List Tree)
  | mapping (tag : Option String) (pairs : List (Tree × Tree))
  deriving Repr, Inhabited

namespace Tree

def empty : Tree := .scalar true none ""

structure State where
  tokens : List Token
  anchors : List (String × Option Tree)

abbrev Read (α : Type) := StateT State Option α

namespace Read

def peek : Read (Option Token) := fun s => some (s.tokens.head?, s)

def drop : Read Unit := fun s => some ((), { s with tokens := s.tokens.drop 1 })

def fail {α : Type} : Read α := fun _ => none

def accept (t : Token) : Read Bool := fun s =>
  if s.tokens.head? == some t then some (true, { s with tokens := s.tokens.drop 1 })
  else some (false, s)

def expect (t : Token) : Read Unit := do
  if ← accept t then pure () else fail

def before (ts : List Token) : Read Bool := fun s =>
  some ((s.tokens.head?.map ts.contains).getD false, s)

def mark (name : Option String) (t : Option Tree) : Read Unit := fun s =>
  match name with
  | some name => some ((), { s with anchors := (name, t) :: s.anchors })
  | none => some ((), s)

def marked (name : String) : Read Tree := fun s =>
  match s.anchors.lookup name with
  | some (some t) => some (t, s)
  | _ => none

def properties : Read (Option String × Option String) := do
  match ← peek with
  | some (.anchor a) =>
      drop
      match ← peek with
      | some (.tag t) => do drop; pure (some a, some t)
      | _ => pure (some a, none)
  | some (.tag t) =>
      drop
      match ← peek with
      | some (.anchor a) => do drop; pure (some a, some t)
      | _ => pure (none, some t)
  | _ => pure (none, none)

end Read

open Read

def scalarTag (tag : Option String) : Option String := if tag == some "!" then none else tag

structure Style where
  block : Bool
  sameColumn : Bool

mutual

def node (style : Style) : Nat → Read Tree
  | 0 => fail
  | fuel + 1 => do
      match ← peek with
      | some (.alias name) => do drop; marked name
      | _ =>
          let (anchor, tag) ← properties
          mark anchor none
          let t ← content style tag (anchor.isSome || tag.isSome) fuel
          mark anchor (some t)
          pure t

def content (style : Style) (tag : Option String) (mayBeEmpty : Bool) : Nat → Read Tree
  | 0 => fail
  | fuel + 1 => do
      match ← peek with
      | some (.scalar plain text) => do drop; pure (.scalar plain (scalarTag tag) text)
      | some .openBracket => do drop; pure (.sequence tag (← bracketItems true fuel))
      | some .openBrace => do drop; pure (.mapping tag (← bracePairs true fuel))
      | some .openSequence =>
          if style.block then do drop; pure (.sequence tag (← blockItems fuel)) else nothing
      | some .openMapping =>
          if style.block then do drop; pure (.mapping tag (← blockPairs fuel)) else nothing
      | some .item =>
          if style.sameColumn then pure (.sequence tag (← columnItems fuel)) else nothing
      | _ => nothing
where
  nothing : Read Tree := if mayBeEmpty then pure (.scalar true tag "") else fail

def blockItems : Nat → Read (List Tree)
  | 0 => fail
  | fuel + 1 => do
      if ← accept .item then
        let t ← if ← before [.item, .closeBlock] then pure empty else node ⟨true, false⟩ fuel
        pure (t :: (← blockItems fuel))
      else do
        expect .closeBlock
        pure []

def columnItems : Nat → Read (List Tree)
  | 0 => fail
  | fuel + 1 => do
      if ← accept .item then
        let t ← if ← before [.item, .key, .value, .closeBlock] then pure empty
          else node ⟨true, false⟩ fuel
        pure (t :: (← columnItems fuel))
      else pure []

def blockPairs : Nat → Read (List (Tree × Tree))
  | 0 => fail
  | fuel + 1 => do
      if ← accept .key then
        let k ← if ← before [.key, .value, .closeBlock] then pure empty else node ⟨true, true⟩ fuel
        let v ← if ← accept .value then
            if ← before [.key, .value, .closeBlock] then pure empty else node ⟨true, true⟩ fuel
          else pure empty
        pure ((k, v) :: (← blockPairs fuel))
      else do
        expect .closeBlock
        pure []

def bracketItems (first : Bool) : Nat → Read (List Tree)
  | 0 => fail
  | fuel + 1 => do
      if ← accept .closeBracket then pure []
      else do
        if !first then expect .comma
        if ← accept .closeBracket then pure []
        else if ← accept .key then
          let k ← if ← before [.value, .comma, .closeBracket] then do drop; pure empty
            else node ⟨false, false⟩ fuel
          let v ← if ← accept .value then
              if ← before [.comma, .closeBracket] then pure empty else node ⟨false, false⟩ fuel
            else pure empty
          pure (.mapping none [(k, v)] :: (← bracketItems false fuel))
        else
          let t ← node ⟨false, false⟩ fuel
          pure (t :: (← bracketItems false fuel))

def bracePairs (first : Bool) : Nat → Read (List (Tree × Tree))
  | 0 => fail
  | fuel + 1 => do
      if ← accept .closeBrace then pure []
      else do
        if !first then expect .comma
        if ← accept .closeBrace then pure []
        else if ← accept .key then
          let k ← if ← before [.value, .comma, .closeBrace] then pure empty
            else node ⟨false, false⟩ fuel
          let v ← if ← accept .value then
              if ← before [.comma, .closeBrace] then pure empty else node ⟨false, false⟩ fuel
            else pure empty
          pure ((k, v) :: (← bracePairs false fuel))
        else
          let k ← node ⟨false, false⟩ fuel
          pure ((k, empty) :: (← bracePairs false fuel))

end

def atEnd (s : State) : Bool := s.tokens.all (· == .documentEnd)

def ofTokens? (ts : List Token) : Option Tree :=
  let fuel := 4 * ts.length + 8
  match ts with
  | [] => some empty
  | .directive :: .documentStart :: rest => explicit? fuel rest
  | .documentStart :: rest => explicit? fuel rest
  | _ => complete? (node ⟨true, false⟩ fuel) ts
where
  complete? (r : Read Tree) (ts : List Token) : Option Tree :=
    (r ⟨ts, []⟩).bind fun (t, s) => if atEnd s then some t else none
  explicit? (fuel : Nat) (ts : List Token) : Option Tree :=
    if atEnd ⟨ts, []⟩ then some empty else complete? (node ⟨true, false⟩ fuel) ts

end Tree

end Yaml

end CheckedConfig
