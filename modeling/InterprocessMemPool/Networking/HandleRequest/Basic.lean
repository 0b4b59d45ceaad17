import InterprocessMemPool.Machine

namespace BeastNetworking

inductive Verb
  | get
  | head
  | post
  | other
  deriving DecidableEq

structure Request where
  method     : Verb
  target     : Text
  version    : ℕ
  keep_alive : Bool
  body       : Text

inductive Status
  | ok
  | bad_request
  | not_found
  | internal_server_error
  deriving DecidableEq

-- The body of a response is a text, the file at a path, or empty. The last two come with the length that
-- is set for the content.
inductive Body
  | string (text : Text)
  | file (path : Text) (content_length : ℕ)
  | empty (content_length : ℕ)
  deriving DecidableEq

structure Response where
  status       : Status
  version      : ℕ
  keep_alive   : Bool
  content_type : String
  body         : Body
  deriving DecidableEq

-- What comes of opening a file.
inductive FileResult
  | opened (size : ℕ)
  | no_such_file_or_directory
  | error (message : Text)

-- What `on_post` has been called with, the path that has been passed to `open`, and what is sent.
structure Exchange where
  posted   : Option Text
  opened   : Option Text
  response : Response
  deriving DecidableEq

def mimeTypes : List (String × String) := [
  (".htm",  "text/html"),
  (".html", "text/html"),
  (".php",  "text/html"),
  (".css",  "text/css"),
  (".txt",  "text/plain"),
  (".js",   "application/javascript"),
  (".json", "application/json"),
  (".xml",  "application/xml"),
  (".swf",  "application/x-shockwave-flash"),
  (".flv",  "video/x-flv"),
  (".png",  "image/png"),
  (".jpe",  "image/jpeg"),
  (".jpeg", "image/jpeg"),
  (".jpg",  "image/jpeg"),
  (".gif",  "image/gif"),
  (".bmp",  "image/bmp"),
  (".ico",  "image/vnd.microsoft.icon"),
  (".tiff", "image/tiff"),
  (".tif",  "image/tiff"),
  (".svg",  "image/svg+xml"),
  (".svgz", "image/svg+xml")]

-- What follows the last dot, with the dot.
def extension (path : Text) : Text :=
  if '.' ∈ path then '.' :: (path.reverse.takeWhile (· ≠ '.')).reverse else []

def mime_type (path : Text) : String :=
  mimeTypes.lookup (String.ofList <| (extension path).map Char.toLower) |>.getD "application/text"

-- The path separator is that of other systems than Windows.
def path_cat (base path : Text) : Text :=
  if base = [] then path else
  (if base.getLast? = some '/' then base.dropLast else base) ++ path

namespace Request

def respond (status : Status) (content_type : String) (body : Body) (req : Request) : Response where
  status
  version    := req.version
  keep_alive := req.keep_alive
  content_type
  body

def bad_request (why : String) (req : Request) : Response :=
  req.respond .bad_request "text/html" (.string why.toList)

def not_found (target : Text) (req : Request) : Response :=
  req.respond .not_found "text/html" <|
    .string ("The resource '".toList ++ target ++ "' was not found.".toList)

def server_error (what : Text) (req : Request) : Response :=
  req.respond .internal_server_error "text/html" <|
    .string ("An error occurred: '".toList ++ what ++ "'".toList)

-- The path to the requested file. An empty text has no last character.
def path (doc_root : Text) (req : Request) : Except Fault Text :=
  let path := (path_cat doc_root req.target).takeWhile (· ≠ '?')
  match path.getLast? with
  | none   => .error .undefinedBehavior
  | some c => .ok <| if c = '/' then path ++ "index.html".toList else path

-- The `c_str` of a text is read up to the first of these.
def nul : Char :=
  .ofNat 0

def c_str (path : Text) : Text :=
  path.takeWhile (· ≠ nul)

def serve (file : Text → FileResult) (path : Text) (req : Request) : Response :=
  match file (c_str path) with
  | .no_such_file_or_directory => req.not_found req.target
  | .error message             => req.server_error message
  | .opened size               => req.respond .ok (mime_type path) <|
    if req.method = .head then .empty size else .file (c_str path) size

end Request

-- `file` is what there is in the file system, and `send` is part of the result.
def handle_request (file : Text → FileResult) (doc_root : Text) (req : Request) :
    Except Fault Exchange :=
  let posted := if req.method = .post ∧ req.method ≠ .head then some req.body else none
  if req.method ≠ .get ∧ req.method ≠ .head then
    .ok { posted, opened := none, response := req.bad_request "Unknown HTTP-method" }
  else if req.target = [] ∨ req.target.head? ≠ some '/' ∨ "..".toList <:+: req.target then
    .ok { posted, opened := none, response := req.bad_request "Illegal request-target" }
  else req.path doc_root |>.map fun path =>
    { posted, opened := some (Request.c_str path), response := req.serve file path }

end BeastNetworking
