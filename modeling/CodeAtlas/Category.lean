import CodeAtlas.Error
import CodeAtlas.Text.Case
import CodeAtlas.Text.Basic
/-!
# Categories of files

What a file is for, told from where it lies. The directories under `models` and `controllers` that hold concerns are looked at
first, since they lie inside the others.
-/

namespace CodeAtlas

/-- What a file is for. -/
inductive Category where
  | model
  | controller
  | service
  | job
  | policy
  | mailer
  | helper
  | concern
  | spec
  | migration
  | schema
  | other
deriving Repr, DecidableEq, Inhabited

namespace Category

open CodeAtlas.Text

/-- The name of a category. -/
def name : Category → String
  | .model => "model"
  | .controller => "controller"
  | .service => "service"
  | .job => "job"
  | .policy => "policy"
  | .mailer => "mailer"
  | .helper => "helper"
  | .concern => "concern"
  | .spec => "spec"
  | .migration => "migration"
  | .schema => "schema"
  | .other => "other"

/-- Every category. -/
def all : List Category :=
  [.model, .controller, .service, .job, .policy, .mailer, .helper, .concern, .spec, .migration, .schema, .other]

/-- The category with exactly this name. -/
def ofName? (s : String) : Option Category := all.find? (·.name == s)

/-- The category a user names, in any case. -/
def ofInput (s : String) : Outcome Category :=
  Error.requireName "category" s (ofName? (toSmall s))

/-- The directories that tell a category, in the order they are tried. -/
def directories : List (String × Category) :=
  [("app/models/concerns", .concern), ("app/controllers/concerns", .concern), ("app/models", .model),
    ("app/controllers", .controller), ("app/services", .service), ("app/jobs", .job), ("app/sidekiq", .job),
    ("app/policies", .policy), ("app/mailers", .mailer), ("app/helpers", .helper)]

/-- The category of a path relative to the root. -/
def classify (path : String) : Category :=
  let path := path.toList.map fun c => if c = '\\' then '/' else c
  let padded := '/' :: path
  let ruby := endsWith ".rb".toList path
  let under (dir : String) : Bool := ruby && occursIn ('/' :: dir.toList ++ ['/']) padded
  match directories.find? (fun (dir, _) => under dir) with
  | some (_, category) => category
  | none =>
    if (under "spec" || under "test") &&
        (endsWith "_spec.rb".toList path || endsWith "_test.rb".toList path) then .spec
    else if under "db/migrate" then .migration
    else if endsWith "/db/schema.rb".toList padded then .schema
    else .other

end Category

end CodeAtlas
