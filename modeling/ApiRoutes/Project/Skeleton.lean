import ApiRoutes.Value
/-!
# The skeleton of an app

The files that a new app starts with (`skeletonFiles`), and the modules that its manifest depends on
by default (`defaultManifest`).
-/
namespace ApiRoutes.Project

/-- The part of a skeleton file's path that stands for the tag of a version. -/
def versionPlaceholder : Text := "__version__"

/-- The module of an API version, line by line. -/
def versionIndexLines : List String := [
  "import \x7binitialize\x7d from 'express-openapi';",
  "import yaml from 'js-yaml';",
  "import fs from 'fs';",
  "import path from 'path';",
  "import multer from 'multer';",
  "import bodyParser from 'body-parser';",
  "",
  "export default (app) => \x7b",
  "",
  "    initialize(\x7b",
  "        app: app,",
  "        apiDoc: yaml.load(fs.readFileSync(path.resolve(__dirname, './base-api-doc.yml'), 'utf8')),",
  "        dependencies: \x7b\x7d,",
  "        paths: path.join(__dirname, './paths/'),",
  "        promiseMode: true,",
  "",
  "        consumesMiddleware: \x7b",
  "            'application/json': bodyParser.json(),",
  "            'text/text': bodyParser.text(),",
  "            // uploaded files and form fields both end up on req.body",
  "            'multipart/form-data': function (req, res, next) \x7b",
  "                multer().any()(req, res, function (err) \x7b",
  "                    if (err) return next(err);",
  "                    (req.files || []).forEach(function (f) \x7b",
  "                        req.body[f.fieldname] = f;",
  "                    \x7d);",
  "                    return next();",
  "                \x7d);",
  "            \x7d",
  "        \x7d,",
  "",
  "        exposeApiDocs: true,",
  "        docsPath: '/api-docs',",
  "",
  "        errorMiddleware: function (err, req, res, next) \x7b // eslint-disable-line no-unused-vars",
  "            const status = err.status || err.statusCode || 500;",
  "            res.status(status).json(\x7b",
  "                status: status,",
  "                message: err.message,",
  "                errors: err.errors",
  "            \x7d);",
  "        \x7d",
  "    \x7d);",
  "",
  "\x7d;"]

/-- The bootstrap module, line by line. -/
def bootstrapLines : List String := [
  "import express from 'express';",
  "",
  "const app = express();",
  "",
  "const inDevelopmentMode = /^development$/i.test(process.env.NODE_ENV);",
  "",
  "if (inDevelopmentMode) \x7b",
  "    console.log('Server is running in development mode');",
  "\x7d",
  "",
  "initializeApiVersions();",
  "",
  "export default app;",
  "",
  "/**",
  " * Every api version registers itself here.",
  " */",
  "function initializeApiVersions() \x7b",
  "\x7d"]

def textOfLines (lines : List String) : Text := lines.flatMap fun l => Text.ofString l ++ "\n"

/-- The files of the skeleton: their paths, with the placeholder, and their texts. -/
def skeletonFiles : List (Text × Text) := [
  ("src/api/__version__/index.js", textOfLines versionIndexLines),
  ("src/index.js", textOfLines bootstrapLines)]

def pathFor (tag path : Text) : Text := Text.replace versionPlaceholder tag path

def skeletonText? (path tag : Text) : Option Text :=
  (skeletonFiles.find? fun f => pathFor tag f.1 == path).map (·.2)

def dependencies (entries : List (String × String)) : Value :=
  .map (entries.map fun e => (.text e.1, .text e.2))

def defaultManifest : Entries := [
  (.text "name", .text "api-server"),
  (.text "version", .text "1.0.0"),
  (.text "private", .bool true),
  (.text "main", .text "src/index.js"),
  (.text "dependencies", dependencies [
    ("body-parser", "^1.20.2"),
    ("express", "^4.19.2"),
    ("express-openapi", "^12.1.3"),
    ("js-yaml", "^4.1.0"),
    ("multer", "^1.4.5-lts.1")]),
  (.text "devDependencies", dependencies [
    ("@babel/core", "^7.24.0"),
    ("@babel/preset-env", "^7.24.0"),
    ("@babel/register", "^7.23.7"),
    ("nodemon", "^3.1.0")])]

end ApiRoutes.Project
