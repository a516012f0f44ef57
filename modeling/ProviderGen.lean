import ProviderGen.Disk.Files
import ProviderGen.Log
import ProviderGen.Main
import ProviderGen.Proofs.DepthFirst
import ProviderGen.Proofs.Document.Distinct
import ProviderGen.Proofs.Schema.Site
import ProviderGen.Proofs.Schema.Visit
import ProviderGen.Proofs.Schema.Discovery
import ProviderGen.Proofs.Schema.Typing
import ProviderGen.Proofs.Schema.Objects
import ProviderGen.Proofs.Schema.Translation
import ProviderGen.Proofs.Schema.Alike
import ProviderGen.Proofs.Schema.Reorder
import ProviderGen.Proofs.Java.Copy
import ProviderGen.Proofs.Schema.References
import ProviderGen.Proofs.Java.Resolution
import ProviderGen.Proofs.Path
import ProviderGen.Proofs.Disk.Way
import ProviderGen.Proofs.Disk.Run
import ProviderGen.Proofs.Disk.Sound
import ProviderGen.Proofs.Files.Write
import ProviderGen.Proofs.Project.Generate
import ProviderGen.Proofs.Project.Scaffold
import ProviderGen.Proofs.Archive.Zip
import ProviderGen.Proofs.Project.Entries
import ProviderGen.Proofs.Java.TypeText
import ProviderGen.Proofs.Java.Binding
import ProviderGen.Proofs.Disk.Failure
import ProviderGen.Proofs.Command
import ProviderGen.Proofs.Disk.Absolute
import ProviderGen.Proofs.Project.Spared
import ProviderGen.Proofs.Schema.Failure
import ProviderGen.Proofs.Schema.WellFormed
import ProviderGen.Proofs.Java.Source
import ProviderGen.Proofs.Java.ImportedTypes
import ProviderGen.Proofs.Project.Sources
import ProviderGen.Proofs.Java.Scanner
import ProviderGen.Proofs.Java.Straying
import ProviderGen.Proofs.Java.PlainText
import ProviderGen.Proofs.Java.StringLiterals
import ProviderGen.Proofs.Java.KeyConstant
import ProviderGen.Proofs.Java.MethodName
import ProviderGen.Proofs.Project.Settings
import ProviderGen.Proofs.Files.Again
import ProviderGen.Proofs.Document.Plain
import ProviderGen.Proofs.Project.Saved
import ProviderGen.Proofs.Project.Example
import ProviderGen.Proofs.Files.Grounds
import ProviderGen.Proofs.Project.Artifact
import ProviderGen.Proofs.Project.Room
import ProviderGen.Proofs.Project.FirstUse
import ProviderGen.Proofs.Project.Packable
import ProviderGen.Proofs.Schema.Unreached
import ProviderGen.Proofs.Java.DerivedPackage
import ProviderGen.Proofs.Java.FieldIdentifier
import ProviderGen.Proofs.Java.Identifier
import ProviderGen.Proofs.Java.Spelling
import ProviderGen.Proofs.Schema.Calls
import ProviderGen.Proofs.Files.FirstLine
import ProviderGen.Proofs.Files.Parents
import ProviderGen.Proofs.Files.SafeWrite
import ProviderGen.Proofs.Project.Written
import ProviderGen.Proofs.Project.InTheWay
import ProviderGen.Proofs.Schema.Trail
import ProviderGen.Proofs.Glob
import ProviderGen.Proofs.Project.Candidates
import ProviderGen.Proofs.Project.ArchivePlace
import ProviderGen.Proofs.Java.Declarations
import ProviderGen.Proofs.Java.Accessors
import ProviderGen.Proofs.Project.ChosenPackage
import ProviderGen.Proofs.Schema.PrintedReference
import ProviderGen.Proofs.Java.PrintedPointer
import ProviderGen.Proofs.Archive.Containment
import ProviderGen.Proofs.TypeName
import ProviderGen.Proofs.Project.Session
import ProviderGen.Proofs.Java.DeclaredKeys
import ProviderGen.Proofs.Java.Naming
import ProviderGen.Proofs.Text.Replace
import ProviderGen.Proofs.Schema.PrintedKey
import ProviderGen.Proofs.Java.NameLiteral
