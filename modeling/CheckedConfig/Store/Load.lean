import CheckedConfig.Store

namespace CheckedConfig

structure Attempt (α : Type) where
  found : Option α
  trail : Trail

namespace Scan

def callOf (l : Loader) (c : Candidate) (previous : Option String) : Trail :=
  if l.traced then ⟨[], [.load c previous]⟩ else .none

def load (files : Files) (c : Candidate) : Option String → List Loader → Attempt String
  | text, [] => ⟨text, .none⟩
  | text, l :: rest =>
      let (next, said) : Option String × Trail :=
        match l.load files text c with
        | .ok loaded => (loaded <|> text, .none)
        | .error e => (text, .notice (.loadFailed l.name c.path e))
      let later := load files c next rest
      ⟨later.found, callOf l c text ++ said ++ later.trail⟩

def parse (text : String) (c : Candidate) : List Parser → Attempt Value
  | [] => ⟨none, .none⟩
  | p :: rest =>
      match p.parse (some text) none c with
      | .ok (some v) => ⟨some v, .none⟩
      | .ok none => parse text c rest
      | .error e =>
          let later := parse text c rest
          ⟨later.found, .notice (.parseFailed p.name c.path e) ++ later.trail⟩

def candidate (files : Files) (loaders : List Loader) (parsers : List Parser) (c : Candidate) :
    Attempt Source :=
  let loaded := load files c none loaders
  match loaded.found with
  | none => ⟨none, loaded.trail⟩
  | some text =>
      let parsed := parse text c parsers
      ⟨parsed.found.map (⟨·, c, some (Checksum.of text)⟩), loaded.trail ++ parsed.trail⟩

def first {α β : Type} (try_ : α → Attempt β) : List α → Attempt β
  | [] => ⟨none, .none⟩
  | a :: rest =>
      let here := try_ a
      match here.found with
      | some b => ⟨some b, here.trail⟩
      | none =>
          let later := first try_ rest
          ⟨later.found, here.trail ++ later.trail⟩

def distinct (seen : List Descriptor) : List Descriptor → List Descriptor
  | [] => []
  | d :: rest =>
      if seen.any (·.same d) then distinct seen rest else d :: distinct (d :: seen) rest

def candidates (sources : List Descriptor) (sel : Selection) : List Candidate :=
  (distinct [] (Descriptor.order sel.groups sources)).flatMap
    (·.candidates sel.groups sel.groupSuffix)

end Scan

namespace Store

def scan (files : Files) (s : Store) (sel : Selection) : Attempt Source :=
  Scan.first (Scan.candidate files s.loaders.values s.parsers.values)
    (Scan.candidates s.sources sel)

def visitCalls (chain : List Interceptor) (v : Visit) : List Call :=
  ((chain.zip v.given).filter (·.1.traced)).map fun p => .visit v.place p.2

def walkTrail {α : Type} (s : Store) (w : Walk α) : Trail :=
  ⟨(match w.result with
      | .ok _ => []
      | .error e => e.notices .plain s.formatter),
    w.visits.flatMap (visitCalls s.interceptors)⟩

def strictWalk (s : Store) : Bool := s.options.strict || s.strictSchema

def initial (schema : Schema) : List Source → Option Value
  | source :: _ => some source.config
  | [] =>
      match schema.root.own.kind with
      | some k => if k.has .object then some (.object []) else none
      | none => none

def withConfig (v : Value) : List Source → List Source
  | source :: rest => { source with config := v } :: rest
  | [] => [⟨v, .defaults, none⟩]

def validate (s : Store) (schema : Schema) (sources : List Source) :
    Except Failure (List Violation × List Source) × Trail :=
  let w := schema.walk s.interceptors s.strictWalk (initial schema sources)
  match w.result with
  | .error e => (.error e, s.walkTrail w)
  | .ok v =>
      let c := w.collection s.strictWalk
      (.ok (c.list, withConfig (v.getD .null) sources),
        s.walkTrail w
          ++ ⟨if s.options.log then c.notices .plain s.formatter else [], []⟩)

def requireSource (s : Store) : List Source → Step Unit
  | _ :: _ => .done s ()
  | [] =>
      let fatal := s.options.noConfigExit || s.options.strict
      ⟨if fatal then .error .noSources else .ok (), s, .notice (.noSources fatal)⟩

def finish (s : Store) (violations : List Violation) (matched : Option Candidate)
    (sources : List Source) : Step LoadResult :=
  (s.requireSource sources).bind fun () s =>
    let r : LoadResult := ⟨violations, matched⟩
    .done { s with configSources := sources, loaded := some r } r

def loadSources (files : Files) (sel : Selection) (s : Store) : Step LoadResult :=
  let s := s.installPlugins
  let scanned := s.scan files sel
  let sources := scanned.found.toList
  let matched := sources.head?.map Source.candidate
  let trail := scanned.trail ++ if sources.isEmpty then .notice .noMatch else .none
  Step.after trail
    (match s.schema with
      | none => s.finish [] matched sources
      | some schema =>
          match s.validate schema sources with
          | (.error e, t) => ⟨.error e, s, t⟩
          | (.ok (vs, sources), t) => Step.after t (s.finish vs matched sources))

def load (files : Files) (sel : Selection) (s : Store) : Step LoadResult :=
  match s.loaded with
  | some r => .done s r
  | none => s.loadSources files sel

end Store

end CheckedConfig
