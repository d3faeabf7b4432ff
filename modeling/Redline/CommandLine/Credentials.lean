import Redline.CommandLine.Files
import Redline.Json.Reader

/-!
# Credentials

The credentials of a user, from a file in JSON. They are used as they are, so a token must be there.
-/

namespace Redline

/-- Credentials of a user. The members are passed on as the file gives them. -/
structure Credentials where
  token : Json
  refreshToken : Json
  tokenUri : Json
  clientId : Json
  clientSecret : Json
  scopes : Json

namespace Credentials

/-- Why there are no credentials. -/
inductive Error where
  | notConfigured
  | notFound (path : Text)
  | unreadable (path : Text) (e : FileError)
  | malformed (path : Text) (e : Json.ReadError)
  /-- The file holds a value that is not an object, of the kind that is named. -/
  | notAnObject (kind : String)
  /-- A key of a service account, which is not supported. -/
  | serviceAccount (path : Text)
  /-- There is no token. -/
  | expired (path : Text)
  /-- There is no token, and to get a new one is not supported. -/
  | needsRefresh (path : Text)
deriving Repr, DecidableEq

def Error.message : Error → Text
  | .notConfigured =>
    ("No credentials configured. Set GOOGLE_DOCS_CREDENTIALS to a service account key or " ++
      "authorized-user token file.").toList
  | .notFound path => "Credentials file not found: ".toList ++ path
  | .unreadable path e => failed path ++ e.message
  | .malformed path e => failed path ++ e.message.toList
  | .notAnObject kind => s!"'{kind}' object has no attribute 'get'".toList
  | .serviceAccount path => "Service account keys are not supported: ".toList ++ path
  | .expired path =>
    "Credentials in ".toList ++ path ++ " are expired and carry no refresh token".toList
  | .needsRefresh path => "Failed to refresh credentials: ".toList ++ path
where
  failed (path : Text) : Text :=
    "Failed to read credentials file ".toList ++ path ++ ": ".toList

/-- The name for the kind of a value. -/
def kindName : Json → String
  | .null => "NoneType"
  | .bool _ => "bool"
  | .int _ => "int"
  | .real _ => "float"
  | .str _ => "str"
  | .arr _ => "list"
  | .obj _ => "dict"

/-- Where tokens come from by default. -/
def defaultTokenUri : String :=
  "https://oauth2.googleapis.com/token"

/-- What the credentials are for by default. -/
def defaultScope : String :=
  "https://www.googleapis.com/auth/documents"

/-- The credentials that an object holds. -/
def ofJson (j : Json) : Credentials :=
  let member (key : String) (default : Json) : Json := (j.get? key).getD default
  { token := member "token" .null
    refreshToken := member "refresh_token" .null
    tokenUri := member "token_uri" (.lit defaultTokenUri)
    clientId := member "client_id" .null
    clientSecret := member "client_secret" .null
    scopes := member "scopes" (.arr [.lit defaultScope]) }

/-- The value says nothing: it is null, false, zero or empty. -/
def isVoid : Json → Bool
  | .null => true
  | .bool b => !b
  | .int n => n == 0
  | .real x => x == 0
  | .str t => t.isEmpty
  | .arr xs => xs.isEmpty
  | .obj ms => ms.isEmpty

/-- The credentials can be used as they are. -/
def isValid (c : Credentials) : Bool :=
  match c.token with
  | .null => false
  | _ => true

/-- Credentials from a value in JSON. -/
def check (path : Text) (j : Json) : Except Error Credentials := do
  match j with
  | .obj _ =>
    if (j.get? "type").bind Json.asText? == some "service_account".toList then
      throw (.serviceAccount path)
    let c := ofJson j
    if c.isValid then return c
    if isVoid c.refreshToken then throw (.expired path) else throw (.needsRefresh path)
  | _ => throw (.notAnObject (kindName j))

/-- Load credentials from a file. -/
def load (files : Files) (path : Text) : Except Error Credentials :=
  match files.readText path with
  | .error (.notFound _) => .error (.notFound path)
  | .error e => .error (.unreadable path e)
  | .ok content =>
    match Json.read content with
    | .error e => .error (.malformed path e)
    | .ok j => check path j

/-- Load the credentials that are configured. -/
def loadConfigured (files : Files) (path : Option Text) : Except Error Credentials :=
  match path with
  | none => .error .notConfigured
  | some path => load files path

end Credentials

end Redline
