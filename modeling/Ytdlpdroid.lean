import Ytdlpdroid.Cache.DiskCache
import Ytdlpdroid.Cache.DiskCache.Eviction
import Ytdlpdroid.Cache.DiskCache.Runs
import Ytdlpdroid.Cache.DiskCache.Theorems
import Ytdlpdroid.Cache.ExtractionCache
import Ytdlpdroid.Cache.ExtractionCache.Runs
import Ytdlpdroid.Cache.MemoryCache
import Ytdlpdroid.Cache.MemoryCache.Recency
import Ytdlpdroid.Cache.MemoryCache.Runs
import Ytdlpdroid.Collections.Greatest
import Ytdlpdroid.Collections.LinkedHashMap
import Ytdlpdroid.Collections.Memo
import Ytdlpdroid.Concurrent.Effects
import Ytdlpdroid.Concurrent.Ends
import Ytdlpdroid.Concurrent.Guarantee
import Ytdlpdroid.Concurrent.Interleave
import Ytdlpdroid.Concurrent.Prog
import Ytdlpdroid.Concurrent.Runs
import Ytdlpdroid.Decipher.DecipherService
import Ytdlpdroid.Decipher.DecipherService.Memoisation
import Ytdlpdroid.Decipher.DecipherService.Playable
import Ytdlpdroid.Decipher.DecipherService.Theorems
import Ytdlpdroid.Decipher.JsFunctionExtractor
import Ytdlpdroid.Decipher.JsFunctionExtractor.Braces
import Ytdlpdroid.Decipher.JsFunctionExtractor.Definitions
import Ytdlpdroid.Decipher.JsFunctionExtractor.Literals
import Ytdlpdroid.Decipher.NParamDecipherer
import Ytdlpdroid.Decipher.NParamDecipherer.CustomEngines
import Ytdlpdroid.Decipher.NParamDecipherer.Discovery
import Ytdlpdroid.Decipher.NParamDecipherer.Names
import Ytdlpdroid.Decipher.NParamDecipherer.Plausibility
import Ytdlpdroid.Decipher.NParamDecipherer.Theorems
import Ytdlpdroid.Decipher.PlayerJsRepository
import Ytdlpdroid.Decipher.PlayerJsRepository.Runs
import Ytdlpdroid.Decipher.PlayerJsRepository.SignatureTimestamp
import Ytdlpdroid.Decipher.PlayerJsRepository.Theorems
import Ytdlpdroid.Decipher.PlayerJsRepository.Usage
import Ytdlpdroid.Decipher.PlayerJsRepository.WatchPage
import Ytdlpdroid.Decipher.PlayerScripts
import Ytdlpdroid.Decipher.SignatureDecipherer
import Ytdlpdroid.Decipher.SignatureDecipherer.Calls
import Ytdlpdroid.Decipher.SignatureDecipherer.Naming
import Ytdlpdroid.Decipher.SignatureDecipherer.Players
import Ytdlpdroid.Decipher.SignatureDecipherer.Standalone
import Ytdlpdroid.Decipher.SignatureDecipherer.Theorems
import Ytdlpdroid.Extractor.VideoIdParser
import Ytdlpdroid.Extractor.VideoIdParser.Forms
import Ytdlpdroid.Extractor.VideoIdParser.Theorems
import Ytdlpdroid.Extractor.VideoIdParser.Urls
import Ytdlpdroid.Extractor.YouTubeExtractor
import Ytdlpdroid.Extractor.YouTubeExtractor.Chain
import Ytdlpdroid.Extractor.YouTubeExtractor.Confinement
import Ytdlpdroid.Extractor.YouTubeExtractor.Confluence
import Ytdlpdroid.Extractor.YouTubeExtractor.Downloads
import Ytdlpdroid.Extractor.YouTubeExtractor.Expiry
import Ytdlpdroid.Extractor.YouTubeExtractor.Failures
import Ytdlpdroid.Extractor.YouTubeExtractor.Fallback
import Ytdlpdroid.Extractor.YouTubeExtractor.Frame
import Ytdlpdroid.Extractor.YouTubeExtractor.Interleaved
import Ytdlpdroid.Extractor.YouTubeExtractor.Playable
import Ytdlpdroid.Extractor.YouTubeExtractor.Precedence
import Ytdlpdroid.Extractor.YouTubeExtractor.Provenance
import Ytdlpdroid.Extractor.YouTubeExtractor.Refinement
import Ytdlpdroid.Extractor.YouTubeExtractor.Requests
import Ytdlpdroid.Extractor.YouTubeExtractor.Reuse
import Ytdlpdroid.Extractor.YouTubeExtractor.Runs
import Ytdlpdroid.Extractor.YouTubeExtractor.Scripted
import Ytdlpdroid.Extractor.YouTubeExtractor.Specification
import Ytdlpdroid.Extractor.YouTubeExtractor.Stages
import Ytdlpdroid.Extractor.YouTubeExtractor.Usable
import Ytdlpdroid.Format.FormatSelector
import Ytdlpdroid.Format.FormatSelector.Caps
import Ytdlpdroid.Format.FormatSelector.CodecOrder
import Ytdlpdroid.Format.FormatSelector.Guards
import Ytdlpdroid.Format.FormatSelector.Optimality
import Ytdlpdroid.Format.FormatSelector.Theorems
import Ytdlpdroid.Format.MimeTypeParser
import Ytdlpdroid.Innertube.InMemoryCookieJar
import Ytdlpdroid.Innertube.InMemoryCookieJar.Runs
import Ytdlpdroid.Innertube.InnerTubeClient
import Ytdlpdroid.Innertube.InnerTubeClient.Initialization
import Ytdlpdroid.Innertube.InnerTubeClient.Session
import Ytdlpdroid.Innertube.InnerTubeClient.Theorems
import Ytdlpdroid.Innertube.InnerTubeClient.VisitorData
import Ytdlpdroid.Innertube.InnerTubeClientConfig
import Ytdlpdroid.Innertube.InnerTubeClientConfig.Layout
import Ytdlpdroid.Innertube.InnerTubeClientConfig.Members
import Ytdlpdroid.Innertube.InnerTubeClientConfig.Reading
import Ytdlpdroid.Innertube.InnerTubeClientConfig.Theorems
import Ytdlpdroid.Innertube.InnerTubeClientConfig.VisitorData
import Ytdlpdroid.Innertube.PlayerResponseParser
import Ytdlpdroid.Innertube.PlayerResponseParser.Theorems
import Ytdlpdroid.Js.QuickJsBridge
import Ytdlpdroid.Js.QuickJsBridge.Refinement
import Ytdlpdroid.Js.QuickJsBridge.Theorems
import Ytdlpdroid.Js.QuickJsEngine
import Ytdlpdroid.Js.QuickJsEngine.Theorems
import Ytdlpdroid.Model.Numbers
import Ytdlpdroid.Model.Numbers.Theorems
import Ytdlpdroid.Model.Throwable
import Ytdlpdroid.Model.Types
import Ytdlpdroid.Model.World
import Ytdlpdroid.Network.RetryInterceptor
import Ytdlpdroid.Network.RetryInterceptor.Theorems
import Ytdlpdroid.Resources.Heap
import Ytdlpdroid.Resources.Ownership
import Ytdlpdroid.Text.Basic
import Ytdlpdroid.Text.Braces
import Ytdlpdroid.Text.FormEncoding
import Ytdlpdroid.Text.Json
import Ytdlpdroid.Text.Json.Literal
import Ytdlpdroid.Text.Json.Theorems
import Ytdlpdroid.Text.Lines
import Ytdlpdroid.Text.Query
import Ytdlpdroid.Text.Regex
import Ytdlpdroid.Text.Regex.Earliest
import Ytdlpdroid.Text.Regex.Greedy
import Ytdlpdroid.Text.Regex.Groups
import Ytdlpdroid.Text.Regex.Language
import Ytdlpdroid.Text.Regex.Theorems
import Ytdlpdroid.Text.StringLiteral
import Ytdlpdroid.Text.Template
import Ytdlpdroid.Text.Utf8
