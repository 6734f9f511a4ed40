import TenantAccess.Vocabulary

/-!
# Features

What a role lets its holders do in an initiative, apart from access to a resource that is there
already. Viewing is on unless a role switches it off, creating is off unless a role switches it on.
-/

namespace TenantAccess

/-- The kinds of resources. -/
inductive ResourceKind
  | project
  | document
  | queue
  deriving DecidableEq, Repr

namespace ResourceKind

def word : ResourceKind → String
  | project => "project"
  | document => "document"
  | queue => "queue"

instance : Vocabulary ResourceKind := ⟨"resource kind", [project, document, queue], word⟩

end ResourceKind

inductive Feature
  | viewDocs
  | viewProjects
  | createDocs
  | createProjects
  deriving DecidableEq, Repr

namespace Feature

def word : Feature → String
  | viewDocs => "docs_enabled"
  | viewProjects => "projects_enabled"
  | createDocs => "create_docs"
  | createProjects => "create_projects"

instance : Vocabulary Feature :=
  ⟨"capability key", [viewDocs, viewProjects, createDocs, createProjects], word⟩

/-- The place of a feature in the order of all of them. -/
def position : Feature → Nat
  | viewDocs => 0
  | viewProjects => 1
  | createDocs => 2
  | createProjects => 3

/-- Whether a role that says nothing about the feature has it. -/
def isDefault : Feature → Bool
  | viewDocs | viewProjects => true
  | createDocs | createProjects => false

/-- The feature needed to create a resource of a kind. -/
def toCreate : ResourceKind → Feature
  | .document => createDocs
  | .project | .queue => createProjects

end Feature

end TenantAccess
