import CheckedConfig.Format.Toml
import CheckedConfig.Source.Descriptor

namespace CheckedConfig

structure Options where
  ext : List String
  noConfigExit : Bool
  log : Bool
  strict : Bool
  deriving DecidableEq, Repr

structure OptionsPatch where
  ext : Option (List String)
  noConfigExit : Option Bool
  log : Option Bool
  strict : Option Bool
  deriving DecidableEq, Repr

namespace Options

def default : Options := ⟨[".json", ".yaml", ".yml", ".json5"], false, true, false⟩

def normalize (o : Options) : Options := { o with ext := o.ext.map normalizeExt }

def patch (o : Options) (p : OptionsPatch) : Options :=
  normalize ⟨p.ext.getD o.ext, p.noConfigExit.getD o.noConfigExit, p.log.getD o.log,
    p.strict.getD o.strict⟩

def document (o : Options) : String :=
  "ext = " ++ Toml.list o.ext ++ "\n" ++ "no_config_exit = " ++ Toml.flag o.noConfigExit ++ "\n"
    ++ "log = " ++ Toml.flag o.log ++ "\n" ++ "strict = " ++ Toml.flag o.strict ++ "\n"

end Options

end CheckedConfig
