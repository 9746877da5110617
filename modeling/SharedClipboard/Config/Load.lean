import SharedClipboard.Config.Json
import SharedClipboard.FileTree

/-!
# Loading the configuration

From a file that the user names, or from the data directory, where it may be missing.
-/

namespace SharedClipboard.Config

/-- The configuration in a file, validated. -/
def load (base : Config) (files : FileTree) (path : FilePath) : Except Error Config := do
  let content ← (files.read path).mapError Error.io
  let config ← (ofJson? base content).mapError Error.serialization
  config.validate
  return config

/-- The configuration in a data directory, or the default one if there is none. Whatever the file
says, the data directory is the one where it was looked for. -/
def loadOrDefault (base : Config) (files : FileTree) (dataDir : String) : Except Error Config := do
  let path := FilePath.ofText dataDir ++ [fileName]
  let config ← if files.pathExists path then load base files path else pure base
  return { config with dataDir }

end SharedClipboard.Config
