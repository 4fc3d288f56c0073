import AppSurface.AdjacencyGraph
import AppSurface.CallEdge
import AppSurface.CallGraph
import AppSurface.CallerTree
import AppSurface.Callers
import AppSurface.CommandLine.Answer
import AppSurface.CommandLine.Arguments
import AppSurface.CommandLine.Help
import AppSurface.CommandLine.Run
import AppSurface.CommandLine.Script
import AppSurface.Component
import AppSurface.Config
import AppSurface.Corpus
import AppSurface.Fault
import AppSurface.FileTree
import AppSurface.Java.Declaration
import AppSurface.Java.Skeleton
import AppSurface.Java.SyntaxTree
import AppSurface.Java.Token
import AppSurface.Java.TokenTree
import AppSurface.Json.Reader
import AppSurface.Json.Value
import AppSurface.Loading
import AppSurface.Locator
import AppSurface.Log
import AppSurface.Main
import AppSurface.Manifest
import AppSurface.Method
import AppSurface.MethodSpan
import AppSurface.Path
import AppSurface.Pattern.Basic
import AppSurface.Pattern.Reading
import AppSurface.Pattern.Token
import AppSurface.Report
import AppSurface.Session
import AppSurface.Targets
import AppSurface.Text.Search
import AppSurface.Unicode.Case
import AppSurface.Unicode.CaseRuns
import AppSurface.Unicode.CasedRanges
import AppSurface.Unicode.Classes
import AppSurface.Unicode.DecimalRanges
import AppSurface.Unicode.WordRanges
import AppSurface.Xml.Attribute
import AppSurface.Xml.Element
import AppSurface.Xml.Event
import AppSurface.Xml.Fault
import AppSurface.Proofs.AdjacencyGraph
import AppSurface.Proofs.CallGraph
import AppSurface.Proofs.CallerSearch
import AppSurface.Proofs.Chain
import AppSurface.Proofs.Cursor
import AppSurface.Proofs.PatternMatch
import AppSurface.Proofs.PatternText
import AppSurface.Proofs.Braces
import AppSurface.Proofs.MethodHead
import AppSurface.Proofs.MethodText
import AppSurface.Proofs.CallEvidence
import AppSurface.Proofs.CallSpelling
import AppSurface.Proofs.Walk
import AppSurface.Proofs.WalkTrace
import AppSurface.Proofs.TracedGraph
import AppSurface.Proofs.MethodGraph
import AppSurface.Proofs.Closure
import AppSurface.Proofs.DepthBound
import AppSurface.Proofs.HeadCalls
import AppSurface.Proofs.DocumentShape
import AppSurface.Proofs.TagSpan
import AppSurface.Proofs.Classification
import AppSurface.Proofs.CallerTree
import AppSurface.Proofs.TreeCoverage
import AppSurface.Proofs.TreeCutOff
import AppSurface.Proofs.GraphRun
import AppSurface.Proofs.SimilarNames
import AppSurface.Proofs.ReportConsistency
import AppSurface.Proofs.ByteOrder
import AppSurface.Proofs.StableOrder
import AppSurface.Proofs.ClassOrder
import AppSurface.Proofs.CorpusOrder
import AppSurface.Proofs.CorpusDump
import AppSurface.Proofs.DirectoryLoad
import AppSurface.Proofs.FilePaths
import AppSurface.Proofs.FileWriting
import AppSurface.Proofs.SkippedFiles
import AppSurface.Proofs.TightenedLoad
import AppSurface.Proofs.ResourceIndependence
import AppSurface.Proofs.EntryComponent
import AppSurface.Proofs.MethodWord
import AppSurface.Proofs.DeclarationPlaces
import AppSurface.Proofs.TypeMembers
import AppSurface.Proofs.TypeUnits
import AppSurface.Proofs.TargetResolution
import AppSurface.Proofs.MethodSearch
import AppSurface.Proofs.LowerCase
import AppSurface.Proofs.LiteralSearch
import AppSurface.Proofs.ResourceNames
import AppSurface.Proofs.TreeText
import AppSurface.Proofs.LauncherActivity
import AppSurface.Proofs.ConfigOverlay
import AppSurface.Proofs.MethodLocality
import AppSurface.Proofs.MethodSpan
import AppSurface.Proofs.CommandAnswer
import AppSurface.Proofs.CommandRun
import AppSurface.Proofs.ComponentGroups
import AppSurface.Proofs.PatternTokens
import AppSurface.Proofs.PatternGroups
import AppSurface.Proofs.WholeNames
