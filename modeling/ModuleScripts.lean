import ModuleScripts.Command.Run
import ModuleScripts.Command.Usage
import ModuleScripts.Dom.Edit
import ModuleScripts.Dom.Markup
import ModuleScripts.Dom.Node
import ModuleScripts.Dom.Reader
import ModuleScripts.Dom.Script
import ModuleScripts.Dom.Token
import ModuleScripts.Dom.Walk
import ModuleScripts.Failure
import ModuleScripts.Files
import ModuleScripts.Folder
import ModuleScripts.Log
import ModuleScripts.Main
import ModuleScripts.Output.Amd
import ModuleScripts.Output.Meta
import ModuleScripts.Output.Specifier
import ModuleScripts.Output.Transform
import ModuleScripts.Output.Versioned
import ModuleScripts.Page.BaseUrl
import ModuleScripts.Page.Effect
import ModuleScripts.Page.External
import ModuleScripts.Page.Inline
import ModuleScripts.Page.Polyfills
import ModuleScripts.Page.Transform
import ModuleScripts.Plugin
import ModuleScripts.Polyfill.Basic
import ModuleScripts.Polyfill.Cache
import ModuleScripts.Polyfill.Loader
import ModuleScripts.Polyfill.Parser
import ModuleScripts.Polyfill.Runtime
import ModuleScripts.Proofs.BindingLayout
import ModuleScripts.Proofs.ClosedCode
import ModuleScripts.Proofs.ClosedLists
import ModuleScripts.Proofs.CodeDefinition
import ModuleScripts.Proofs.CodeLines
import ModuleScripts.Proofs.CodeTags
import ModuleScripts.Proofs.Concatenation
import ModuleScripts.Proofs.ContextThread
import ModuleScripts.Proofs.DeclaredNames
import ModuleScripts.Proofs.DefaultDeclaration
import ModuleScripts.Proofs.Dependencies
import ModuleScripts.Proofs.Everywhere
import ModuleScripts.Proofs.ExactLexing
import ModuleScripts.Proofs.ExportLayout
import ModuleScripts.Proofs.ExportMap
import ModuleScripts.Proofs.FactoryLines
import ModuleScripts.Proofs.FactoryRun
import ModuleScripts.Proofs.FailingStatement
import ModuleScripts.Proofs.Grounding
import ModuleScripts.Proofs.ImportLayout
import ModuleScripts.Proofs.Interruption
import ModuleScripts.Proofs.LayoutReading
import ModuleScripts.Proofs.LineShift
import ModuleScripts.Proofs.ListEnd
import ModuleScripts.Proofs.MarkupRecovery
import ModuleScripts.Proofs.MetaObject
import ModuleScripts.Proofs.MetaQuoting
import ModuleScripts.Proofs.MetaWords
import ModuleScripts.Proofs.Neighbours
import ModuleScripts.Proofs.NestedScripts
import ModuleScripts.Proofs.PageMap
import ModuleScripts.Proofs.Placement
import ModuleScripts.Proofs.PolyfillCache
import ModuleScripts.Proofs.PolyfillMemory
import ModuleScripts.Proofs.Printing
import ModuleScripts.Proofs.QueryPieces
import ModuleScripts.Proofs.QuietNames
import ModuleScripts.Proofs.Reparsing
import ModuleScripts.Proofs.SameTokens
import ModuleScripts.Proofs.ScriptChanges
import ModuleScripts.Proofs.ScriptEnds
import ModuleScripts.Proofs.SeparatorOffsets
import ModuleScripts.Proofs.SourceWord
import ModuleScripts.Proofs.SpecifierReplacement
import ModuleScripts.Proofs.Stages
import ModuleScripts.Proofs.StatementLayout
import ModuleScripts.Proofs.StructuralWalk
import ModuleScripts.Proofs.StubLiteral
import ModuleScripts.Proofs.Surrounding
import ModuleScripts.Proofs.Tour
import ModuleScripts.Proofs.VariableDeclaration
import ModuleScripts.Session
import ModuleScripts.Settings
import ModuleScripts.Source.Bindings
import ModuleScripts.Source.Boundary
import ModuleScripts.Source.Comments
import ModuleScripts.Source.Declarators
import ModuleScripts.Source.ExportForm
import ModuleScripts.Source.ImportForm
import ModuleScripts.Source.Lexer
import ModuleScripts.Source.Matcher
import ModuleScripts.Source.Parser
import ModuleScripts.Source.Statement
import ModuleScripts.Source.SyntaxError
import ModuleScripts.Text.Basic
import ModuleScripts.Text.Blank
import ModuleScripts.Text.CharClass
import ModuleScripts.Text.Quoting
import ModuleScripts.Url.File
import ModuleScripts.Url.Host
import ModuleScripts.Url.Query
import ModuleScripts.Url.Reference
import ModuleScripts.Url.Resolve
