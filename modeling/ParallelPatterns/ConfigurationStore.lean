import ParallelPatterns.Configuration

/-!
# Configurations in use

Several configurations can be in use at a time. Each is known by its identifier and is saved and
deleted on its own; the files of all of them lie in one folder.
-/

namespace ParallelPatterns

/-- What is asked for a configuration in use. -/
inductive ConfigurationRequest where
  | save (form : ConfigurationForm)
  | delete

structure ConfigurationStore where
  files : Files := {}
  held : Table String Configuration := ∅
  deriving Inhabited

namespace ConfigurationStore

def configuration (s : ConfigurationStore) (id : String) : Configuration := s.held.getD id (.empty id)

/-- Carries out a request. What is entered is taken over even if it cannot be stored. -/
def serve (directory : String) (s : ConfigurationStore) (id : String) :
    ConfigurationRequest → Result Unit × ConfigurationStore
  | .save form =>
    let c := s.configuration id
    let saved := (c.save directory form).run.run s.files
    (saved.1.map fun _ => (), { files := saved.2, held := s.held.insert id (c.withForm form) })
  | .delete =>
    let deleted := ((s.configuration id).delete directory).run.run s.files
    (deleted.1, { s with files := deleted.2 })

def serveAll (directory : String) (s : ConfigurationStore)
    (requests : List (String × ConfigurationRequest)) : ConfigurationStore :=
  requests.foldl (fun s r => (s.serve directory r.1 r.2).2) s

end ConfigurationStore

end ParallelPatterns
